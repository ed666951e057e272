import LearnGit.Spec.ChatSteps

/-!
# One session per user

A login asks the database whether its user is offline and says later, in another statement,
that the user is online. A second login whose question comes in between is let in as well.

## Key results

- `SessionInv.step`: while no question comes in between, one login of a user has been let in
- `one_session`: the runs in which one connection of a user gets the answer `error = 0`
- `two_sessions`: a run in which two do
-/

namespace Chat

open Transition ChatService UserModel

variable {sc : ChatScenario} {h : List (ChatState × ChatEvent)} {s s' : ChatState} {e : ChatEvent}

/-! ## Steps that are no logins -/

/-- What a step that is no login can do: it sends messages only. -/
structure Aside (w w' : ChatWorld) : Prop where
  user : w'.db.user = w.db.user
  acks : ∀ c name, (c, .loginAck name) ∈ w'.sent → (c, .loginAck name) ∈ w.sent

theorem Aside.of_eq {w w' : ChatWorld} (huser : w'.db.user = w.db.user)
    (hsent : w'.sent = w.sent) : Aside w w' :=
  ⟨huser, fun _ _ hack => hsent ▸ hack⟩

theorem aside_send {w : ChatWorld} (conn : Nat) (m : Message) :
    Aside w (w.send conn (.oneMessage m)) := by
  refine ⟨rfl, fun c name hack => ?_⟩
  obtain hack | hack := List.mem_append.mp hack
  · exact hack
  · exact absurd hack (by simp)

theorem MessageEffect.aside {server : Nat} {req : OneMessage} {msgid : Int} {now : Varchar}
    {w w' : ChatWorld} {pc pc' : MessagePc}
    (heff : MessageEffect server req msgid now w pc w' pc') : Aside w w' := by
  cases heff with
  | found => exact aside_send _ _
  | _ => exact .of_eq rfl rfl

/-! ## The texts in Redis -/

/-- Only messages are published. -/
def PublishedMessages (w : ChatWorld) : Prop :=
  ∀ p ∈ w.published, ∃ m, p.2.2 = .oneMessage m

theorem MessageEffect.publishedMessages {server : Nat} {req : OneMessage} {msgid : Int}
    {now : Varchar} {w w' : ChatWorld} {pc pc' : MessagePc}
    (heff : MessageEffect server req msgid now w pc w' pc') (hpub : PublishedMessages w) :
    PublishedMessages w' := by
  cases heff with
  | @publish m =>
    intro p hp
    obtain hp | hp := List.mem_append.mp hp
    · exact hpub p hp
    · obtain ⟨q, -, rfl⟩ := List.mem_map.mp hp
      exact ⟨m, rfl⟩
  | _ => exact hpub

theorem redisHandler_aside {server : Nat} {channel : Int} {m : Message} {w w' : ChatWorld}
    (haside : Aside w w') : Aside w (redisHandler server channel (.oneMessage m) w') := by
  unfold redisHandler
  split
  · next conn _ =>
    have hsend := aside_send (w := w') conn m
    exact ⟨hsend.user.trans haside.user, fun c name hack => haside.acks c name (hsend.acks _ _ hack)⟩
  · exact haside

/-- A login answers its own connection. -/
theorem LoginEffect.ack_cases {server conn : Nat} {req : LoginRequest} {rows : List MessageRow}
    {w w' : ChatWorld} {pc pc' : LoginPc}
    (heff : LoginEffect server conn req rows w pc w' pc') {c : Nat} {name : Bytes}
    (hack : (c, .loginAck name) ∈ w'.sent) :
    (c, .loginAck name) ∈ w.sent ∨ c = conn ∧ pc.accepted = true := by
  cases heff with
  | refuse text _ =>
    obtain hack | hack := List.mem_append.mp hack
    · exact .inl hack
    · exact absurd hack (by simp)
  | sendAck user =>
    obtain hack | hack := List.mem_append.mp hack
    · exact .inl hack
    · exact .inr ⟨(Prod.mk.inj (List.mem_singleton.mp hack)).1, rfl⟩
  | sendOffline m rest =>
    obtain hack | hack := List.mem_append.mp hack
    · exact .inl hack
    · exact absurd hack (by simp)
  | _ => exact .inl hack

/-! ## The invariant -/

/-- A login is let in only while every other login of its user that was let in has said that
    the user is online. -/
def QueriesAlone (sc : ChatScenario) (_ : List (ChatState × ChatEvent)) (s : ChatState) :
    ChatEvent → Prop
  | .login conn _ =>
    s.logins conn = .query → Accepts s.world.db (sc.login conn).2 →
      ∀ c, (sc.login c).2.id = (sc.login conn).2.id → (s.logins c).accepted = true →
        (s.logins c).updated = true
  | _ => True

structure SessionInv (sc : ChatScenario) (s : ChatState) : Prop where
  one : ∀ c c', (sc.login c).2.id = (sc.login c').2.id → (s.logins c).accepted = true →
    (s.logins c').accepted = true → c = c'
  user : ∀ c, (s.logins c).accepted = true →
    (s.world.db.user.find? (sc.login c).2.id).isSome
  online : ∀ c, (s.logins c).updated = true → OnlineIn s.world (sc.login c).2.id
  acked : ∀ c name, (c, .loginAck name) ∈ s.world.sent → (s.logins c).accepted = true
  published : PublishedMessages s.world

theorem SessionInv.init (hinit : (chatSystem sc).init s) : SessionInv sc s := by
  obtain ⟨hworld, hlogins, -⟩ := hinit
  have hquery (c : Nat) : s.logins c = .query := by rw [hlogins]
  have hpc (c : Nat) : (s.logins c).accepted = false := by rw [hquery c]; rfl
  refine ⟨fun c _ _ hc => ?_, fun c hc => ?_, fun c hc => ?_, fun c _ hc => ?_, fun p hp => ?_⟩
  · exact absurd hc (by rw [hpc c]; exact Bool.false_ne_true)
  · exact absurd hc (by rw [hpc c]; exact Bool.false_ne_true)
  · exact absurd (LoginPc.accepted_of_updated hc) (by rw [hpc c]; exact Bool.false_ne_true)
  · rw [hworld] at hc
    exact absurd hc List.not_mem_nil
  · rw [hworld] at hp
    exact absurd hp List.not_mem_nil

/-- A step of another kind than a login. -/
theorem SessionInv.aside (hI : SessionInv sc s) (hlogins : s'.logins = s.logins)
    (haside : Aside s.world s'.world) (hpub : PublishedMessages s'.world) : SessionInv sc s' where
  one := by
    rw [hlogins]
    exact hI.one
  user := by
    rw [hlogins, haside.user]
    exact hI.user
  online c hc := by
    rw [hlogins] at hc
    unfold OnlineIn
    rw [haside.user]
    exact hI.online c hc
  acked c name hack := by
    rw [hlogins]
    exact hI.acked c name (haside.acks c name hack)
  published := hpub

/-- Where a login is let in, no login of its user has been. -/
theorem SessionInv.not_accepted (hI : SessionInv sc s) {conn : Nat} {rows : List MessageRow}
    (hC : QueriesAlone sc h s (.login conn rows)) (hquery : s.logins conn = .query)
    (hacc : Accepts s.world.db (sc.login conn).2) {c : Nat}
    (hid : (sc.login c).2.id = (sc.login conn).2.id) : ¬ (s.logins c).accepted = true := by
  intro hc
  -- the query of this login found the user offline
  obtain ⟨row, hrow, honline⟩ := hI.online c (hC hquery hacc c hid hc)
  obtain ⟨-, row', hrow', hoffline⟩ := hacc.exists_row
  rw [hid, hrow'] at hrow
  rw [← Option.some.inj hrow, hoffline] at honline
  exact absurd honline (by simp)

/-- A statement of a login. -/
theorem SessionInv.login (hI : SessionInv sc s) {conn : Nat} {rows : List MessageRow}
    {pc : LoginPc}
    (heff : LoginEffect (sc.login conn).1 conn (sc.login conn).2 rows s.world (s.logins conn)
      s'.world pc)
    (hC : QueriesAlone sc h s (.login conn rows)) (hself : s'.logins conn = pc)
    (hother : ∀ c, c ≠ conn → s'.logins c = s.logins c) : SessionInv sc s' := by
  have hgrows := heff.grows
  -- a login that has been let in was so before, or it is this one that now is
  have hcases (c : Nat) (hc : (s'.logins c).accepted = true) :
      (s.logins c).accepted = true ∨
        c = conn ∧ s.logins conn = .query ∧ Accepts s.world.db (sc.login conn).2 := by
    by_cases hcc : c = conn
    · subst hcc
      rw [hself] at hc
      obtain hpc | hnew := heff.accepted_cases hc
      · exact .inl hpc
      · exact .inr ⟨rfl, hnew⟩
    · rw [hother c hcc] at hc
      exact .inl hc
  have hmono (c : Nat) (hc : (s.logins c).accepted = true) : (s'.logins c).accepted = true := by
    by_cases hcc : c = conn
    · subst hcc
      rw [hself]
      exact heff.accepted_mono hc
    · rw [hother c hcc]
      exact hc
  refine ⟨fun c c' hid hc hc' => ?_, fun c hc => ?_, fun c hc => ?_, fun c name hack => ?_, ?_⟩
  · obtain hold | ⟨rfl, hquery, hacc⟩ := hcases c hc
    · obtain hold' | ⟨rfl, hquery, hacc⟩ := hcases c' hc'
      · exact hI.one c c' hid hold hold'
      · exact absurd hold (hI.not_accepted hC hquery hacc hid)
    · obtain hold' | ⟨rfl, -, -⟩ := hcases c' hc'
      · exact absurd hold' (hI.not_accepted hC hquery hacc hid.symm)
      · rfl
  · obtain hold | ⟨rfl, -, hacc⟩ := hcases c hc
    · exact hgrows.user _ (hI.user c hold)
    · obtain ⟨-, row, hrow, -⟩ := hacc.exists_row
      exact hgrows.user _ (by rw [hrow]; rfl)
  · by_cases hcc : c = conn
    · subst hcc
      rw [hself] at hc
      obtain hpc | ⟨hpc, hworld⟩ := heff.updated_cases hc
      · exact hgrows.online _ (hI.online c hpc)
      · rw [hworld]
        exact onlineIn_updateStates (hI.user c hpc)
    · rw [hother c hcc] at hc
      exact hgrows.online _ (hI.online c hc)
  · obtain hack | ⟨rfl, hold⟩ := heff.ack_cases hack
    · exact hmono c (hI.acked c name hack)
    · exact hmono c hold
  · unfold PublishedMessages
    rw [heff.published]
    exact hI.published

theorem SessionInv.step (hI : SessionInv sc s) (heff : ChatEffect sc s e s')
    (hC : QueriesAlone sc h s e) : SessionInv sc s' := by
  cases heff with
  | login heff =>
    exact hI.login heff hC (Function.update_self _ _ _) fun c hc => Function.update_of_ne hc _ _
  | onemessage heff => exact hI.aside rfl heff.aside (heff.publishedMessages hI.published)
  | @redis k server channel msg hpub =>
    obtain ⟨m, rfl⟩ := hI.published _ (List.mem_of_getElem? hpub)
    refine hI.aside rfl (redisHandler_aside (.of_eq rfl rfl)) fun p hp => ?_
    rw [redisHandler_published] at hp
    exact hI.published p (List.mem_of_mem_eraseIdx hp)

/-- At most one connection of a user was answered with `error = 0`. -/
def OneSession (sc : ChatScenario) (s : ChatState) : Prop :=
  ∀ c c' name name', (sc.login c).2.id = (sc.login c').2.id →
    (c, .loginAck name) ∈ s.world.sent → (c', .loginAck name') ∈ s.world.sent → c = c'

theorem one_session (hrun : Run (chatSystem sc) h s) (hC : StepsMeet (QueriesAlone sc) h) :
    OneSession sc s := by
  have hI : SessionInv sc s :=
    hrun.rec_of_stepsMeet (I := fun _ s => SessionInv sc s) hC (fun _ => SessionInv.init)
      fun _ _ _ _ _ hI hstep hmeets => hI.step (chatStep_effect hstep) hmeets
  intro c c' name name' hid hack hack'
  exact hI.one c c' hid (hI.acked c name hack) (hI.acked c' name' hack')

/-! ## Two connections of one user -/

/-- Every connection logs in as the same user. -/
def sameUser : ChatScenario where
  start := twoUsersWorld
  login _ := (0, ⟨1, [0x70]⟩)
  message _ := (0, ⟨1, 1, []⟩)

/-- The second connection asks before the first one has set the state. -/
def askTogether : List ChatEvent :=
  [.login 0 [], .login 1 [], .login 0 [], .login 0 [], .login 0 [], .login 0 [],
    .login 1 [], .login 1 [], .login 1 [], .login 1 []]

theorem askTogether_runs : (chatSchedule sameUser askTogether).isSome := by decide +kernel

theorem two_sessions :
    ¬ ∀ (sc : ChatScenario) (h : List (ChatState × ChatEvent)) (s : ChatState),
      (∀ c, (query sc.start.db (sc.login c).2.id).state = .offline) →
        Run (chatSystem sc) h s → OneSession sc s := by
  intro hall
  have hoff (c : Nat) : (query sameUser.start.db (sameUser.login c).2.id).state = .offline := by
    have huser : (query twoUsers 1).state = .offline := by decide +kernel
    exact huser
  have hone := hall _ _ _ hoff (chatSchedule_run askTogether_runs) 0 1 [0x61] [0x61] rfl
    (by decide +kernel) (by decide +kernel)
  exact absurd hone (by decide)

/-- The second connection asks afterwards. -/
def askAfterwards : List ChatEvent :=
  [.login 0 [], .login 0 [], .login 0 [], .login 0 [], .login 0 [], .login 1 []]

theorem askAfterwards_runs : (chatSchedule sameUser askAfterwards).isSome := by decide +kernel

theorem one_session_askAfterwards :
    OneSession sameUser ((chatSchedule sameUser askAfterwards).get askAfterwards_runs).2 := by
  refine one_session (chatSchedule_run askAfterwards_runs) ?_
  refine And.intro ?_ (And.intro ?_ (And.intro ?_ (And.intro ?_ (And.intro ?_ (And.intro ?_ ?_)))))
  · exact fun _ hacc => absurd hacc (by decide +kernel)
  · exact fun hquery => absurd hquery (by decide +kernel)
  · exact fun hquery => absurd hquery (by decide +kernel)
  · exact fun hquery => absurd hquery (by decide +kernel)
  · exact fun hquery => absurd hquery (by decide +kernel)
  · exact fun _ _ c _ hc => absurd hc Bool.false_ne_true
  · trivial

end Chat
