import LearnGit.Spec.ChatTaskSteps

/-!
# Accounts

An account begins with the INSERT of a `ref`, and nothing that any handler does later changes
its name or its password.

## Key results

- `Statement.account`: the accounts after a statement
- `accounts`: which accounts there are, which password opens them, and who is told their ids
-/

namespace Chat

open Transition Interleaving ChatService UserModel

/-- The name and the password of a row. -/
def UserRow.texts (r : UserRow) : Varchar × Varchar := (r.username, r.password)

namespace UserModel

/-- The name and the password of a user. -/
def account (db : Database) (id : Int) : Option (Varchar × Varchar) :=
  (db.user.find? id).map UserRow.texts

theorem account_of_eq {db db' : Database} (huser : db'.user = db.user) (id : Int) :
    account db' id = account db id := by
  unfold account
  rw [huser]

theorem account_updateStates (db : Database) (id : Int) (state : UserState) (id' : Int) :
    account (updateStates db id state) id' = account db id' := by
  unfold account
  rw [find?_updateStates]
  split
  · rw [Option.map_map]
    rfl
  · rfl

/-- The password that a login has to give. -/
theorem passwordRight_query_iff {db : Database} {req : LoginRequest} :
    passwordRight (query db req.id) req ↔
      req.id ≠ -1 ∧ ∃ name pwd, account db req.id = some (name, pwd) ∧
        req.password = pwd.read := by
  unfold passwordRight account
  rw [query_eq]
  cases hrow : db.user.find? req.id with
  | none => simp
  | some row =>
    have hid : row.id = req.id := Table.key_of_find? hrow
    simp only [Option.map_some, Option.getD_some, hid, UserRow.texts, Option.some.injEq,
      Prod.mk.injEq, and_congr_right_iff]
    intro _
    constructor
    · intro hpwd
      exact ⟨_, _, ⟨rfl, rfl⟩, hpwd.symm⟩
    · rintro ⟨_, _, ⟨rfl, rfl⟩, hpwd⟩
      exact hpwd.symm

end UserModel

/-! ## A statement -/

theorem LoginEffect.account {server conn : Nat} {req : LoginRequest} {rows : List MessageRow}
    {w w' : ChatWorld} {pc pc' : LoginPc}
    (heff : LoginEffect server conn req rows w pc w' pc') (id : Int) :
    account w'.db id = account w.db id := by
  cases heff with
  | updateStates => exact account_updateStates _ _ _ _
  | _ => rfl

theorem MessageEffect.user {server : Nat} {req : OneMessage} {msgid : Int} {now : Varchar}
    {w w' : ChatWorld} {pc pc' : MessagePc}
    (heff : MessageEffect server req msgid now w pc w' pc') : w'.db.user = w.db.user := by
  cases heff with
  | _ => rfl

/-- A statement registers the user of a `ref`, and leaves the other accounts alone. -/
theorem Statement.account {c : Choice} {w w' : ServiceWorld} {p p' : Task}
    (hst : Statement c w p w' p') :
    (∀ id, account w'.chat.db id = account w.chat.db id) ∧
        (∀ conn req, p = .ref conn req → c.user = none) ∨
      ∃ conn row, c.user = some row ∧ row.id ≠ -1 ∧
        p = .ref conn ⟨row.username.text, row.password.text⟩ ∧
        account w.chat.db row.id = none ∧
        ∀ id, account w'.chat.db id =
          if id = row.id then some row.texts else account w.chat.db id := by
  cases hst with
  | login heff => exact .inl ⟨heff.account, fun _ _ hp => absurd hp (by simp)⟩
  | @ref conn req row t huser hnew hinsert =>
    obtain ⟨hname, hpassword, hid, hfresh⟩ := hnew
    refine .inr ⟨conn, row, huser, hid, by rw [hname, hpassword], ?_, fun id => ?_⟩
    · rw [UserModel.account, hfresh]
      rfl
    · show (t.find? id).map UserRow.texts = _
      rw [Table.find?_insert hinsert]
      split <;> rfl
  | refFailed huser => exact .inl ⟨fun _ => rfl, fun _ _ _ => huser⟩
  | onemessage heff => exact .inl ⟨account_of_eq heff.user, fun _ _ hp => absurd hp (by simp)⟩
  | friend t hp => exact .inl ⟨fun _ => rfl, fun _ _ heq => by simp [heq, Task.ofFriends] at hp⟩
  | list hp => exact .inl ⟨fun _ => rfl, fun _ _ heq => by simp [heq, Task.ofFriends] at hp⟩
  | clientColse server conn =>
    refine .inl ⟨account_of_eq ?_, fun _ _ hp => absurd hp (by simp)⟩
    show (closeEntry server conn c.order w.chat).1.db.user = _
    rw [closeEntry_db]
  | updateStates id =>
    exact .inl ⟨account_updateStates _ id .offline, fun _ _ hp => absurd hp (by simp)⟩
  | _ => exact .inl ⟨fun _ => rfl, fun _ _ hp => absurd hp (by simp)⟩

/-! ## Runs -/

/-- A `ref` through a connection has inserted a user with this id. -/
def Inserted (t : List (Choice × ServiceWorld × Task)) (conn : Nat) (req : RefRequest)
    (id : Int) : Prop :=
  ∃ c w row, (c, w, Task.ref conn req) ∈ t ∧ c.user = some row ∧ row.id = id

/-- A user has a name and a password: from the start, or since a `ref` with them. -/
def RegisteredAs (db : Database) (t : List (Choice × ServiceWorld × Task)) (id : Int)
    (name pwd : Varchar) : Prop :=
  account db id = some (name, pwd) ∨ ∃ conn, Inserted t conn ⟨name.text, pwd.text⟩ id

/-- The id of the user that a statement inserts. -/
def newId : Choice × ServiceWorld × Task → Multiset Int
  | (c, _, .ref _ _) => ↑(c.user.toList.map UserRow.id)
  | _ => 0

/-- The ids of the users that were inserted. -/
def newIds (t : List (Choice × ServiceWorld × Task)) : Multiset Int := (t.map newId).sum

/-- The ids that a handler has still to tell. -/
def untold : Task → Multiset Int
  | .respond _ answers => ↑(answers.filterMap Answer.ackId?)
  | _ => 0

/-- The ids that were told. -/
def told (answers : List (Nat × Answer)) : List Int := answers.filterMap fun p => p.2.ackId?

section RegisteredAs

variable {db : Database} {t : List (Choice × ServiceWorld × Task)} {c : Choice}
  {w w' : ServiceWorld} {p p' : Task}

theorem Inserted.cons {conn : Nat} {req : RefRequest} {id : Int} (hins : Inserted t conn req id)
    (x : Choice × ServiceWorld × Task) : Inserted (x :: t) conn req id := by
  obtain ⟨c, w, row, hmem, huser, hid⟩ := hins
  exact ⟨c, w, row, List.mem_cons_of_mem _ hmem, huser, hid⟩

theorem inserted_cons_iff {conn : Nat} {req : RefRequest} {id : Int} :
    Inserted ((c, w, p) :: t) conn req id ↔
      Inserted t conn req id ∨ p = .ref conn req ∧ ∃ row, c.user = some row ∧ row.id = id := by
  constructor
  · rintro ⟨c', w', row, hmem, huser, hid⟩
    cases List.mem_cons.mp hmem with
    | inl heq =>
      obtain ⟨rfl, rfl, rfl⟩ := by simpa using heq
      exact .inr ⟨rfl, row, huser, hid⟩
    | inr hmem => exact .inl ⟨c', w', row, hmem, huser, hid⟩
  · rintro (hins | ⟨rfl, row, huser, hid⟩)
    · exact hins.cons _
    · exact ⟨c, w, row, List.mem_cons_self, huser, hid⟩

theorem RegisteredAs.mono {t' : List (Choice × ServiceWorld × Task)} {id : Int}
    {name pwd : Varchar} (hreg : RegisteredAs db t id name pwd) (hsub : t ⊆ t') :
    RegisteredAs db t' id name pwd := by
  refine hreg.imp_right fun ⟨conn, c, w, row, hmem, huser, hid⟩ => ?_
  exact ⟨conn, c, w, row, hsub hmem, huser, hid⟩

/-- A statement that inserts no user registers nobody. -/
theorem registeredAs_cons_of_none (hnone : ∀ conn req, p = .ref conn req → c.user = none)
    {id : Int} {name pwd : Varchar} :
    RegisteredAs db ((c, w, p) :: t) id name pwd ↔ RegisteredAs db t id name pwd := by
  refine or_congr Iff.rfl (exists_congr fun conn => ?_)
  rw [inserted_cons_iff]
  refine or_iff_left fun ⟨hp, row, huser, _⟩ => ?_
  rw [hnone _ _ hp] at huser
  exact absurd huser (by simp)

/-- A statement that inserts a user registers that one. -/
theorem registeredAs_cons_of_some {conn : Nat} {row : UserRow} (huser : c.user = some row)
    (hp : p = .ref conn ⟨row.username.text, row.password.text⟩) {id : Int}
    {name pwd : Varchar} :
    RegisteredAs db ((c, w, p) :: t) id name pwd ↔
      RegisteredAs db t id name pwd ∨ id = row.id ∧ (name, pwd) = row.texts := by
  unfold RegisteredAs
  rw [or_assoc]
  refine or_congr Iff.rfl ?_
  simp only [inserted_cons_iff, exists_or]
  refine or_congr Iff.rfl ?_
  subst hp
  simp only [huser, Option.some.injEq, exists_eq_left', Task.ref.injEq, RefRequest.mk.injEq,
    UserRow.texts, Prod.mk.injEq]
  constructor
  · rintro ⟨conn', ⟨-, hname, hpwd⟩, hid⟩
    obtain ⟨name, hfits⟩ := name
    obtain ⟨pwd, hfits'⟩ := pwd
    obtain rfl : _ = name := hname
    obtain rfl : _ = pwd := hpwd
    exact ⟨hid.symm, rfl, rfl⟩
  · rintro ⟨hid, rfl, rfl⟩
    exact ⟨conn, ⟨rfl, rfl, rfl⟩, hid.symm⟩

end RegisteredAs

/-- What holds of the accounts at any time. -/
structure AccountsInv (db : Database) (t : List (Choice × ServiceWorld × Task))
    (w : ServiceWorld) : Prop where
  registered : ∀ id name pwd,
    account w.chat.db id = some (name, pwd) ↔ RegisteredAs db t id name pwd
  nodup : (newIds t).Nodup
  known : ∀ id ∈ newIds t, account w.chat.db id ≠ none
  told : ∀ conn id, (conn, .refAck id) ∈ w.answers → ∃ req, Inserted t conn req id

/-- What a handler has still to tell was inserted for its connection. -/
def TellsInserted (t : List (Choice × ServiceWorld × Task)) : Task → Prop
  | .respond conn answers => ∀ id, .refAck id ∈ answers → ∃ req, Inserted t conn req id
  | _ => True

section Accounts

variable {db : Database} {t : List (Choice × ServiceWorld × Task)} {c : Choice}
  {w w' : ServiceWorld} {p p' : Task}

@[simp] theorem newIds_cons (x : Choice × ServiceWorld × Task) :
    newIds (x :: t) = newId x + newIds t := by
  rw [newIds, List.map_cons, List.sum_cons]
  rfl

theorem newId_of_none (hnone : ∀ conn req, p = .ref conn req → c.user = none) :
    newId (c, w, p) = 0 := by
  cases p with
  | ref conn req =>
    unfold newId
    simp only [hnone conn req rfl]
    rfl
  | _ => rfl

theorem newId_of_some {conn : Nat} {req : RefRequest} {row : UserRow}
    (huser : c.user = some row) : newId (c, w, .ref conn req) = {row.id} := by
  unfold newId
  simp only [huser]
  rfl

/-- Only `respond` sends an answer. -/
theorem Statement.answers (hst : Statement c w p w' p') :
    w'.answers = w.answers ∨
      ∃ conn a rest, p = .respond conn (a :: rest) ∧ w'.answers = w.answers ++ [(conn, a)] := by
  cases hst with
  | respond conn a rest => exact .inr ⟨conn, a, rest, rfl, rfl⟩
  | _ => exact .inl rfl

theorem AccountsInv.next (hinv : AccountsInv db t w) (hp : TellsInserted t p)
    (hst : Statement c w p w' p') : AccountsInv db ((c, w, p) :: t) w' := by
  have htold : ∀ conn id, (conn, .refAck id) ∈ w'.answers →
      ∃ req, Inserted ((c, w, p) :: t) conn req id := by
    intro conn id hmem
    -- an answer that was just sent was with the handler before
    have hins : ∃ req, Inserted t conn req id := by
      obtain heq | ⟨conn', a, rest, rfl, heq⟩ := hst.answers
      · rw [heq] at hmem
        exact hinv.told conn id hmem
      · rw [heq] at hmem
        cases List.mem_append.mp hmem with
        | inl hold => exact hinv.told conn id hold
        | inr hnew =>
          obtain ⟨rfl, rfl⟩ := by simpa using hnew
          exact hp id List.mem_cons_self
    obtain ⟨req, hins⟩ := hins
    exact ⟨req, hins.cons _⟩
  cases hst.account with
  | inl hsame =>
    obtain ⟨hsame, hnone⟩ := hsame
    have hids : newIds ((c, w, p) :: t) = newIds t := by
      rw [newIds_cons, newId_of_none hnone, zero_add]
    refine ⟨fun id name pwd => ?_, ?_, fun id hid => ?_, htold⟩
    · rw [hsame, hinv.registered, registeredAs_cons_of_none hnone]
    · rw [hids]
      exact hinv.nodup
    · rw [hids] at hid
      rw [hsame]
      exact hinv.known id hid
  | inr hnew =>
    obtain ⟨conn, row, huser, -, rfl, hfresh, haccount⟩ := hnew
    have hids : newIds ((c, w, Task.ref conn ⟨row.username.text, row.password.text⟩) :: t) =
        row.id ::ₘ newIds t := by
      rw [newIds_cons, newId_of_some huser, Multiset.singleton_add]
    refine ⟨fun id name pwd => ?_, ?_, fun id hid => ?_, htold⟩
    · rw [haccount, registeredAs_cons_of_some huser rfl, ← hinv.registered]
      split
      · next heq => simp [heq, hfresh, eq_comm]
      · next hne => simp [hne]
    · -- the id had no account, so it was not given before
      rw [hids, Multiset.nodup_cons]
      exact ⟨fun hmem => hinv.known _ hmem hfresh, hinv.nodup⟩
    · rw [haccount]
      split
      · simp
      · next hne =>
        rw [hids] at hid
        exact hinv.known id ((Multiset.mem_cons.mp hid).resolve_left hne)

theorem TellsInserted.cons (hp : TellsInserted t p) (x : Choice × ServiceWorld × Task) :
    TellsInserted (x :: t) p := by
  cases p with
  | respond conn answers =>
    intro id hmem
    obtain ⟨req, hins⟩ := hp id hmem
    exact ⟨req, hins.cons x⟩
  | _ => trivial

theorem Statement.tellsInserted (hst : Statement c w p w' p') (hp : TellsInserted t p) :
    TellsInserted ((c, w, p) :: t) p' := by
  cases hst with
  | @ref conn req row _ huser =>
    intro id hmem
    obtain rfl : id = row.id := by simpa using hmem
    exact ⟨req, c, w, row, List.mem_cons_self, huser, rfl⟩
  | refFailed huser =>
    intro id hmem
    simp [refAnswer] at hmem
  | friend _ _ hp' => cases p' <;> trivial
  | @list _ conn answers _ hanswers =>
    intro id hmem
    have hid : id ∈ answers.filterMap Answer.ackId? := List.mem_filterMap.mpr ⟨_, hmem, rfl⟩
    rw [hanswers] at hid
    exact absurd hid List.not_mem_nil
  | respond conn a rest =>
    have hrest : TellsInserted t (.respond conn rest) :=
      fun id hmem => hp id (List.mem_cons_of_mem a hmem)
    exact hrest.cons _
  | _ => trivial

theorem accounts_outline (db : Database) :
    Outline chatProgram (Started db) (AccountsInv db) fun t _ p => TellsInserted t p where
  init w hstart := by
    obtain ⟨rfl, -, -, -, -, hanswers⟩ := hstart
    refine ⟨fun id name pwd => ?_, Multiset.nodup_zero, fun id hid => ?_, fun conn id hmem => ?_⟩
    · exact ⟨.inl, fun hreg => hreg.resolve_right fun ⟨_, _, _, _, hmem, _⟩ => nomatch hmem⟩
    · exact absurd hid (Multiset.notMem_zero id)
    · rw [hanswers] at hmem
      exact absurd hmem List.not_mem_nil
  task t w r _ := by
    cases r with
    | _ => trivial
  next t c w p w' p' hinv hp hnext :=
    ⟨hinv.next hp (next_statement hnext), (next_statement hnext).tellsInserted hp⟩
  outside t k w w' hinv hhand := by
    obtain ⟨hdb, hanswers⟩ := handOn_db hhand
    exact ⟨hdb ▸ hinv.registered, hinv.nodup, hdb ▸ hinv.known, hanswers ▸ hinv.told⟩
  stable_next t c w p w' p' q _ _ _ hq := hq.cons _
  stable_outside t k w w' q _ _ hq := hq

theorem untold_of_ofFriends (hp : p.ofFriends) : untold p = 0 := by
  cases p <;> trivial

theorem newId_of_ofFriends (hp : p.ofFriends) : newId (c, w, p) = 0 := by
  cases p <;> trivial

theorem Statement.told (hst : Statement c w p w' p') :
    (told w'.answers : Multiset Int) + untold p' =
      newId (c, w, p) + ((told w.answers : Multiset Int) + untold p) := by
  cases hst with
  | ref huser =>
    rw [newId_of_some huser]
    exact (add_comm _ _).trans (congrArg _ (add_zero _).symm)
  | refFailed huser =>
    rw [newId_of_none fun _ _ _ => huser, zero_add]
    rfl
  | friend t hp hp' =>
    rw [untold_of_ofFriends hp, untold_of_ofFriends hp', newId_of_ofFriends hp, zero_add]
    rfl
  | list hp hanswers =>
    rw [untold_of_ofFriends hp, newId_of_ofFriends hp, zero_add, untold, hanswers]
    rfl
  | respond conn a rest =>
    -- the answer goes from the handler to the connection
    have hcons : (a :: rest).filterMap Answer.ackId? =
        a.ackId?.toList ++ rest.filterMap Answer.ackId? := by
      rw [List.filterMap_cons]
      cases a.ackId? <;> rfl
    have hsent : Chat.told (w.answers ++ [(conn, a)]) = Chat.told w.answers ++ a.ackId?.toList := by
      rw [Chat.told, List.filterMap_append]
      congr 1
    have hnone : newId (c, w, .respond conn (a :: rest)) = 0 := rfl
    rw [ServiceWorld.answer_answers, hsent, hnone, zero_add]
    simp only [untold, hcons, ← Multiset.coe_add, add_assoc]
  | _ => exact (zero_add _).symm

/-- The id of a new user is told, or it is still to be told. -/
theorem told_add_untold {h : List (State ServiceWorld Task × Event Call Choice Nat)}
    {s : State ServiceWorld Task} (hrun : Run (chatServers db) h s) :
    (told s.world.answers : Multiset Int) + (s.tasks.map untold).sum = newIds (statements h) := by
  refine balance_of_run (J := fun _ => True) (f := fun w => (told w.answers : Multiset Int)) hrun
    (fun _ _ => trivial) ?_ ?_ ?_ ?_
  · intro w hstart
    simp [hstart.2.2.2.2.2, told]
  · intro r
    cases r <;> rfl
  · intro c w p w' p' _ hnext
    exact (next_statement hnext).told
  · intro k w w' _ hhand
    rw [(handOn_db hhand).2]

/-- Whatever the handlers do next to each other: an account has the name and the password of
    the `ref` that inserted it, a login needs that password up to its first zero byte, and an
    id is told once at most, to a connection whose `ref` inserted it. -/
theorem accounts {h : List (State ServiceWorld Task × Event Call Choice Nat)}
    {s : State ServiceWorld Task} (hrun : Run (chatServers db) h s) :
    (∀ id name pwd,
      account s.world.chat.db id = some (name, pwd) ↔ RegisteredAs db (statements h) id name pwd) ∧
    (∀ req, passwordRight (query s.world.chat.db req.id) req ↔
      req.id ≠ -1 ∧ ∃ name pwd, RegisteredAs db (statements h) req.id name pwd ∧
        req.password = pwd.read) ∧
    (told s.world.answers).Nodup ∧
    ∀ conn id, (conn, .refAck id) ∈ s.world.answers →
      ∃ req, Inserted (statements h) conn req id := by
  have hinv : AccountsInv db (statements h) s.world :=
    ((accounts_outline db).holds_of_run hrun).1
  refine ⟨hinv.registered, fun req => ?_, ?_, hinv.told⟩
  · simp only [passwordRight_query_iff, hinv.registered]
  · -- no id was inserted twice, and each was told once at most
    have hle : (told s.world.answers : Multiset Int) ≤ newIds (statements h) := by
      rw [← told_add_untold hrun]
      exact Multiset.le_add_right _ _
    exact Multiset.coe_nodup.mp (Multiset.nodup_of_le hle hinv.nodup)

end Accounts

/-- Two users register next to each other, the second one with a password that is a zero
    byte. -/
def twoRefs : List (Event Call Choice Nat) :=
  [.call (.ref 3 ⟨[0x61], [0x70]⟩), .call (.ref 4 ⟨[0x62], [0]⟩),
    .next 1 { user := some { id := 1, username := .single 0x62, password := .single 0
                             state := .offline } },
    .next 0 { user := some { id := 2, username := .single 0x61, password := .single 0x70
                             state := .offline } },
    .next 0 {}, .next 1 {}]

def noUsers : Database where
  user := .empty _
  message := .empty _
  friend := .empty _

theorem twoRefs_runs : (serversSchedule noUsers twoRefs).isSome := by decide +kernel

/-- Both have their ids, and the second one logs in with an empty password. -/
theorem accounts_twoRefs :
    (told ((serversSchedule noUsers twoRefs).get twoRefs_runs).2.world.answers).Nodup ∧
      passwordRight
        (query ((serversSchedule noUsers twoRefs).get twoRefs_runs).2.world.chat.db 1)
        ⟨1, []⟩ := by
  obtain ⟨hregistered, hpassword, htold, -⟩ := accounts (serversSchedule_run twoRefs_runs)
  refine ⟨htold, (hpassword ⟨1, []⟩).mpr ⟨by decide, .single 0x62, .single 0, ?_, by decide⟩⟩
  exact (hregistered 1 _ _).mp (by decide +kernel)

end Chat
