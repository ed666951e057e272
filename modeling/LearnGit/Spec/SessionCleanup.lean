import LearnGit.Spec.ChatSteps

/-!
# Closing a connection

The close callback takes the first entry of the connection out of the map and sets that
entry's user to offline. A second user of the connection keeps its entry, and so does a user
whose login runs after the callback.

## Key results

- `CleanInv.step`: while logins come through open connections that have no other user, the
  entries of the map tell the users online apart by connection
- `closed_clean`: the runs in which a closed connection leaves nothing behind
- `entry_left`: a run in which it does
-/

namespace Chat

open Transition ChatService UserModel

variable {h : List (SessionState × SessionEvent)} {s s' : SessionState} {e : SessionEvent}

/-! ## What a login and a close callback do -/

theorem login_of_accepts (server conn : Nat) {req : LoginRequest} (rows : List MessageRow)
    {w : ChatWorld} (hacc : Accepts w.db req) :
    (login server conn req rows w).userIdConn = (w.insertConn server req.id conn).userIdConn ∧
      (login server conn req rows w).db = updateStates w.db req.id .online := by
  have hfold (m : List Message) (w : ChatWorld) :
      (m.foldl (fun w m => w.send conn (.offlineMessage { m with toid := req.id })) w).userIdConn =
          w.userIdConn ∧
        (m.foldl (fun w m => w.send conn (.offlineMessage { m with toid := req.id })) w).db =
          w.db := by
    induction m generalizing w with
    | nil => exact ⟨rfl, rfl⟩
    | cons m rest ih => exact ih _
  unfold login
  dsimp only
  rw [if_pos hacc.1, if_pos hacc.2]
  exact hfold _ _

theorem login_of_not_accepts (server conn : Nat) {req : LoginRequest} (rows : List MessageRow)
    {w : ChatWorld} (hacc : ¬ Accepts w.db req) :
    (login server conn req rows w).userIdConn = w.userIdConn ∧
      (login server conn req rows w).db = w.db := by
  unfold login
  dsimp only
  split
  · next hright =>
    rw [if_neg fun hstate => hacc ⟨hright, hstate⟩]
    exact ⟨rfl, rfl⟩
  · exact ⟨rfl, rfl⟩

/-- The close callback finds an entry of the connection, or there is none. -/
theorem clientColse_cases (server conn : Nat) {order : List Int} {w : ChatWorld}
    (horder : order.Perm (w.userIdConn server).keys) :
    (∃ id, (w.userIdConn server)[id]? = some conn ∧
      (clientColse server conn order w).userIdConn = (w.eraseConn server id).userIdConn ∧
      (clientColse server conn order w).db = updateStates w.db id .offline) ∨
    ((∀ id : Int, (w.userIdConn server)[id]? ≠ some conn) ∧
      (clientColse server conn order w).userIdConn = w.userIdConn ∧
      (clientColse server conn order w).db = updateStates w.db 0 .offline) := by
  unfold clientColse
  cases hfind : order.find? fun id => (w.userIdConn server)[id]? = some conn with
  | some id => exact .inl ⟨id, by simpa using List.find?_some hfind, rfl, rfl⟩
  | none =>
    refine .inr ⟨fun id hid => ?_, rfl, rfl⟩
    have hkey : id ∈ order := by
      rw [horder.mem_iff, Std.ExtTreeMap.mem_keys, Std.ExtTreeMap.mem_iff_isSome_getElem?, hid]
      rfl
    simpa [hid] using List.find?_eq_none.mp hfind id hkey

/-! ## The property -/

/-- User `u` has logged in through connection `c`. -/
def LoggedIn (h : List (SessionState × SessionEvent)) (u : Int) (c : Nat) : Prop :=
  ∃ s k rows req, (s, .execute k rows) ∈ h ∧ s.queue[k]? = some (c, req) ∧ req.id = u ∧
    Accepts s.world.db req

/-- Once the callback and all logins of a connection have run, no entry of the map refers to
    it, and who has logged in through this connection only is offline. -/
def ClosedClean (h : List (SessionState × SessionEvent)) (s : SessionState) : Prop :=
  ∀ c ∈ s.closed, (∀ task ∈ s.queue, task.1 ≠ c) →
    (∀ id : Int, s.userIdConn[id]? ≠ some c) ∧
      ∀ u, LoggedIn h u c → (∀ c', LoggedIn h u c' → c' = c) →
        (query s.world.db u).state = .offline

/-- A login is let in only through a connection that is open and has no entry of another
    user. -/
def LoginsApart (_ : List (SessionState × SessionEvent)) (s : SessionState) :
    SessionEvent → Prop
  | .execute k _ =>
    ∀ task ∈ s.queue[k]?, Accepts s.world.db task.2 →
      task.1 ∉ s.closed ∧ ∀ id ∈ s.userIdConn.keys, s.userIdConn[id]? = some task.1 → id = task.2.id
  | _ => True

instance (h : List (SessionState × SessionEvent)) (s : SessionState) (e : SessionEvent) :
    Decidable (LoginsApart h s e) := by
  cases e <;> unfold LoginsApart <;> infer_instance

/-! ## The invariant -/

structure CleanInv (h : List (SessionState × SessionEvent)) (s : SessionState) : Prop where
  opened : ∀ (id : Int) (c : Nat), s.userIdConn[id]? = some c → c ∉ s.closed
  single : ∀ (id id' : Int) (c : Nat), s.userIdConn[id]? = some c → s.userIdConn[id']? = some c →
    id = id'
  online : ∀ u c, LoggedIn h u c → OnlineIn s.world u →
    ∃ c', s.userIdConn[u]? = some c' ∧ LoggedIn h u c'

theorem CleanInv.init (hinit : sessionSystem.init s) : CleanInv [] s := by
  obtain ⟨hmap, -, -⟩ := hinit
  refine ⟨fun id c hid => ?_, fun id _ c hid => ?_, fun u c hlogged => ?_⟩
  · rw [hmap] at hid
    exact absurd hid (by simp)
  · rw [hmap] at hid
    exact absurd hid (by simp)
  · obtain ⟨_, _, _, _, hmem, -⟩ := hlogged
    exact absurd hmem List.not_mem_nil

theorem LoggedIn.cons {u : Int} {c : Nat} (hlogged : LoggedIn h u c)
    (p : SessionState × SessionEvent) : LoggedIn (p :: h) u c := by
  obtain ⟨t, k, rows, req, hmem, hrest⟩ := hlogged
  exact ⟨t, k, rows, req, List.mem_cons_of_mem _ hmem, hrest⟩

/-- Another event than the execution of a login. -/
theorem LoggedIn.of_cons {u : Int} {c : Nat} (he : ∀ k rows, e ≠ .execute k rows)
    (hlogged : LoggedIn ((s, e) :: h) u c) : LoggedIn h u c := by
  obtain ⟨t, k, rows, req, hmem, hrest⟩ := hlogged
  cases List.mem_cons.mp hmem with
  | inl heq => exact absurd (Prod.mk.inj heq).2.symm (he k rows)
  | inr hmem => exact ⟨t, k, rows, req, hmem, hrest⟩

/-- The entry of a user in the map of a state whose world is known. -/
private theorem entry_of_eq {w w' : ChatWorld} (hmap : w'.userIdConn = w.userIdConn) (id : Int) :
    (w'.userIdConn 0)[id]? = (w.userIdConn 0)[id]? := by rw [hmap]

theorem onlineIn_of_db {w w' : ChatWorld} {id : Int} (hdb : w'.db = w.db)
    (hon : OnlineIn w' id) : OnlineIn w id := by
  unfold OnlineIn at hon
  rw [hdb] at hon
  exact hon

theorem onlineIn_of_updateStates {w w' : ChatWorld} {id id' : Int} {state : UserState}
    (hdb : w'.db = updateStates w.db id' state) (hne : id ≠ id') (hon : OnlineIn w' id) :
    OnlineIn w id := by
  obtain ⟨row, hrow, hstate⟩ := hon
  rw [hdb, find?_updateStates, if_neg hne] at hrow
  exact ⟨row, hrow, hstate⟩

theorem not_onlineIn_updateStates {w w' : ChatWorld} {id : Int}
    (hdb : w'.db = updateStates w.db id .offline) : ¬ OnlineIn w' id := by
  rintro ⟨row, hrow, hstate⟩
  rw [hdb, find?_updateStates, if_pos rfl] at hrow
  obtain ⟨r, -, rfl⟩ := Option.map_eq_some_iff.mp hrow
  exact absurd hstate (by simp)

/-- A user may go offline. -/
theorem onlineIn_of_offline {w w' : ChatWorld} {id id' : Int}
    (hdb : w'.db = updateStates w.db id' .offline) (hon : OnlineIn w' id) :
    id ≠ id' ∧ OnlineIn w id := by
  have hne : id ≠ id' := fun heq => not_onlineIn_updateStates hdb (heq ▸ hon)
  exact ⟨hne, onlineIn_of_updateStates hdb hne hon⟩

/-- The task that is executed. -/
theorem LoggedIn.execute_cases {k : Nat} {rows : List MessageRow} {c c' : Nat} {u : Int}
    {req : LoginRequest} (htask : s.queue[k]? = some (c, req))
    (hlogged : LoggedIn ((s, .execute k rows) :: h) u c') :
    LoggedIn h u c' ∨ c' = c ∧ u = req.id ∧ Accepts s.world.db req := by
  obtain ⟨t, k', rows', req', hmem, htask', hu, hacc⟩ := hlogged
  cases List.mem_cons.mp hmem with
  | inl heq =>
    obtain ⟨rfl, hevent⟩ := Prod.mk.inj heq
    obtain ⟨rfl, rfl⟩ := SessionEvent.execute.inj hevent
    obtain ⟨rfl, rfl⟩ := Prod.mk.inj (Option.some.inj (htask'.symm.trans htask))
    exact .inr ⟨rfl, hu.symm, hacc⟩
  | inr hmem => exact .inl ⟨t, k', rows', req', hmem, htask', hu, hacc⟩

/-- The invariant is kept where entries are only taken away and nobody comes online. -/
theorem CleanInv.of_entries {p : SessionState × SessionEvent} (hI : CleanInv h s)
    (hkept : ∀ (id : Int) (c : Nat), s'.userIdConn[id]? = some c →
      s.userIdConn[id]? = some c ∧ c ∉ s'.closed)
    (hlogged : ∀ u c, LoggedIn (p :: h) u c → LoggedIn h u c)
    (honline : ∀ u, OnlineIn s'.world u →
      OnlineIn s.world u ∧ s'.userIdConn[u]? = s.userIdConn[u]?) :
    CleanInv (p :: h) s' where
  opened id c hid := (hkept id c hid).2
  single id id' c hid hid' := hI.single id id' c (hkept id c hid).1 (hkept id' c hid').1
  online u c hu hon := by
    obtain ⟨hon, hentry⟩ := honline u hon
    obtain ⟨c', hc', hu'⟩ := hI.online u c (hlogged u c hu) hon
    exact ⟨c', hentry.trans hc', hu'.cons p⟩

/-- A login that is let in brings the entry of its user to its connection. -/
theorem CleanInv.execute_accepted (hI : CleanInv h s) {k : Nat} {rows : List MessageRow} {c : Nat}
    {req : LoginRequest} (htask : s.queue[k]? = some (c, req))
    (hC : LoginsApart h s (.execute k rows)) (hclosed : s'.closed = s.closed)
    (hworld : s'.world = login 0 c req rows s.world) (hacc : Accepts s.world.db req) :
    CleanInv ((s, .execute k rows) :: h) s' := by
  obtain ⟨hopen, hsingle⟩ := hC (c, req) htask hacc
  obtain ⟨hmap, hdb⟩ := login_of_accepts 0 c rows hacc
  rw [← hworld] at hmap hdb
  have hentry (id : Int) : s'.userIdConn[id]? =
      if id = req.id then some c else s.userIdConn[id]? := by
    refine (entry_of_eq hmap id).trans ?_
    rw [ChatWorld.getElem?_insertConn]
    simp [SessionState.userIdConn]
  have hown (id : Int) (hid : s.userIdConn[id]? = some c) : id = req.id := by
    refine hsingle id ?_ hid
    rw [Std.ExtTreeMap.mem_keys, Std.ExtTreeMap.mem_iff_isSome_getElem?, hid]
    rfl
  -- every entry of the connection is the user's own, the new one and the old ones
  have hreq (id : Int) (hid : s'.userIdConn[id]? = some c) : id = req.id := by
    rw [hentry] at hid
    split at hid
    · next heq => exact heq
    · exact hown id hid
  have hrest {id : Int} {c' : Nat} (hne : c' ≠ c) (hid : s'.userIdConn[id]? = some c') :
      s.userIdConn[id]? = some c' := by
    rw [hentry] at hid
    split at hid
    · exact absurd (Option.some.inj hid).symm hne
    · exact hid
  refine ⟨fun id c' hid => ?_, fun id id' c' hid hid' => ?_, fun u c' hlogged hon => ?_⟩
  · rw [hclosed]
    by_cases hc : c' = c
    · exact hc ▸ hopen
    · exact hI.opened id c' (hrest hc hid)
  · by_cases hc : c' = c
    · subst hc
      rw [hreq id hid, hreq id' hid']
    · exact hI.single id id' c' (hrest hc hid) (hrest hc hid')
  · by_cases hu : u = req.id
    · have hnow : LoggedIn ((s, .execute k rows) :: h) u c :=
        ⟨s, k, rows, req, List.mem_cons_self, htask, hu.symm, hacc⟩
      exact ⟨c, by rw [hentry, if_pos hu], hnow⟩
    · obtain hold | ⟨-, heq, -⟩ := hlogged.execute_cases htask
      · obtain ⟨k', hk', hlogged'⟩ := hI.online u c' hold (onlineIn_of_updateStates hdb hu hon)
        exact ⟨k', by rw [hentry, if_neg hu]; exact hk', hlogged'.cons _⟩
      · exact absurd heq hu

theorem CleanInv.execute_refused (hI : CleanInv h s) {k : Nat} {rows : List MessageRow} {c : Nat}
    {req : LoginRequest} (htask : s.queue[k]? = some (c, req)) (hclosed : s'.closed = s.closed)
    (hworld : s'.world = login 0 c req rows s.world) (hacc : ¬ Accepts s.world.db req) :
    CleanInv ((s, .execute k rows) :: h) s' := by
  obtain ⟨hmap, hdb⟩ := login_of_not_accepts 0 c rows hacc
  rw [← hworld] at hmap hdb
  have hentry (id : Int) : s'.userIdConn[id]? = s.userIdConn[id]? := entry_of_eq hmap id
  apply hI.of_entries
  · intro id c' hid
    rw [hclosed]
    rw [hentry] at hid
    exact ⟨hid, hI.opened id c' hid⟩
  · intro u c' hlogged
    obtain hold | ⟨-, -, hacc'⟩ := hlogged.execute_cases htask
    · exact hold
    · exact absurd hacc' hacc
  · intro u hon
    exact ⟨onlineIn_of_db hdb hon, hentry u⟩

theorem CleanInv.close (hI : CleanInv h s) {c : Nat} {order : List Int}
    (horder : order.Perm s.userIdConn.keys) (hclosed : s'.closed = c :: s.closed)
    (hworld : s'.world = clientColse 0 c order s.world) :
    CleanInv ((s, .close c order) :: h) s' := by
  have hold (u : Int) (c' : Nat) (hlogged : LoggedIn ((s, .close c order) :: h) u c') :
      LoggedIn h u c' := hlogged.of_cons fun _ _ => by simp
  obtain ⟨id₀, hfound, hmap, hdb⟩ | ⟨hnone, hmap, hdb⟩ := clientColse_cases 0 c horder
  · rw [← hworld] at hmap hdb
    have hentry (id : Int) : s'.userIdConn[id]? =
        if id = id₀ then none else s.userIdConn[id]? := by
      refine (entry_of_eq hmap id).trans ?_
      rw [ChatWorld.getElem?_eraseConn]
      simp [SessionState.userIdConn]
    refine hI.of_entries (fun id c' hid => ?_) hold fun u hon => ?_
    · rw [hentry] at hid
      split at hid
      · exact absurd hid (by simp)
      · next hne =>
        -- the entry that was taken out was the only one of the connection
        rw [hclosed, List.mem_cons, not_or]
        exact ⟨hid, fun heq => hne (hI.single id id₀ c (heq ▸ hid) hfound), hI.opened id c' hid⟩
    · obtain ⟨hne, hon⟩ := onlineIn_of_offline hdb hon
      exact ⟨hon, by rw [hentry, if_neg hne]⟩
  · rw [← hworld] at hmap hdb
    have hentry (id : Int) : s'.userIdConn[id]? = s.userIdConn[id]? := entry_of_eq hmap id
    refine hI.of_entries (fun id c' hid => ?_) hold fun u hon => ?_
    · rw [hentry] at hid
      rw [hclosed, List.mem_cons, not_or]
      exact ⟨hid, fun heq => hnone id (heq ▸ hid), hI.opened id c' hid⟩
    · exact ⟨(onlineIn_of_offline hdb hon).2, hentry u⟩

theorem CleanInv.step (hI : CleanInv h s) (hstep : sessionSystem.step s e = some s')
    (hC : LoginsApart h s e) : CleanInv ((s, e) :: h) s' := by
  cases e with
  | request c req =>
    have hstep : (if c ∈ s.closed then none else _) = some s' := hstep
    split at hstep
    · exact absurd hstep (by simp)
    · obtain rfl := Option.some.inj hstep
      -- a request becomes a task, and no map and no row changes before that is executed
      refine hI.of_entries (fun id c' hid => ⟨hid, hI.opened id c' hid⟩) (fun u c' hlogged => ?_)
        fun u hon => ⟨hon, rfl⟩
      exact hlogged.of_cons fun _ _ => by simp
  | execute k rows =>
    obtain ⟨⟨c, req⟩, htask, hrun⟩ := Option.bind_eq_some_iff.mp hstep
    split at hrun
    · obtain rfl := Option.some.inj hrun
      by_cases hacc : Accepts s.world.db req
      · exact hI.execute_accepted htask hC rfl rfl hacc
      · exact hI.execute_refused htask rfl rfl hacc
    · exact absurd hrun (by simp)
  | close c order =>
    have hstep : (if c ∉ s.closed ∧ order.Perm s.userIdConn.keys then _ else none) = some s' :=
      hstep
    split at hstep
    · next hcond =>
      obtain rfl := Option.some.inj hstep
      exact hI.close hcond.2 rfl rfl
    · exact absurd hstep (by simp)

/-- A closed connection leaves nothing behind in the runs whose logins are let in through open
    connections without another user. -/
theorem closed_clean (hrun : Run sessionSystem h s) (hC : StepsMeet LoginsApart h) :
    ClosedClean h s := by
  have hI : CleanInv h s :=
    hrun.rec_of_stepsMeet hC (fun _ => CleanInv.init)
      fun _ _ _ _ _ hI hstep hmeets => hI.step hstep hmeets
  intro c hc _
  refine ⟨fun id hid => hI.opened id c hid hc, fun u hlogged honly => ?_⟩
  by_contra hstate
  have honline : (query s.world.db u).state = .online := by
    cases hquery : (query s.world.db u).state with
    | online => rfl
    | offline => exact absurd hquery hstate
  obtain ⟨row, hrow, hrowstate⟩ := query_state_eq_online_iff.mp honline
  obtain ⟨c', hentry, hlogged'⟩ := hI.online u c hlogged ⟨row, hrow, hrowstate⟩
  exact hI.opened u c' hentry (honly c' hlogged' ▸ hc)

/-! ## One connection, one user and two -/

/-- The history and the state of a server after some events. -/
def sessionSchedule (es : List SessionEvent) :
    Option (List (SessionState × SessionEvent) × SessionState) :=
  sessionSystem.exec [] { world := twoUsersWorld } es

theorem sessionSchedule_run {es : List SessionEvent} (hsome : (sessionSchedule es).isSome) :
    Run sessionSystem ((sessionSchedule es).get hsome).1 ((sessionSchedule es).get hsome).2 :=
  Run.of_exec (S := sessionSystem) ⟨rfl, rfl, rfl⟩ hsome

/-- The client logs in as one user, goes back to the menu and logs in as another one. -/
def bothThenClose : List SessionEvent :=
  [.request 5 ⟨1, [0x70]⟩, .request 5 ⟨2, [0x70]⟩, .execute 0 [], .execute 0 [], .close 5 [1, 2]]

theorem bothThenClose_runs : (sessionSchedule bothThenClose).isSome := by decide +kernel

theorem entry_left :
    ¬ ∀ (h : List (SessionState × SessionEvent)) (s : SessionState),
      Run sessionSystem h s → ClosedClean h s := by
  intro hall
  obtain ⟨hentry, -⟩ := hall _ _ (sessionSchedule_run bothThenClose_runs) 5 (by decide +kernel)
    (by decide +kernel)
  exact hentry 2 (by decide +kernel)

/-- One user logs in on each of two connections, and one of them is closed. -/
def eachThenClose : List SessionEvent :=
  [.request 5 ⟨1, [0x70]⟩, .request 6 ⟨2, [0x70]⟩, .execute 1 [], .execute 0 [], .close 5 [2, 1]]

theorem eachThenClose_runs : (sessionSchedule eachThenClose).isSome := by decide +kernel

theorem closed_clean_eachThenClose :
    ClosedClean ((sessionSchedule eachThenClose).get eachThenClose_runs).1
      ((sessionSchedule eachThenClose).get eachThenClose_runs).2 :=
  closed_clean (sessionSchedule_run eachThenClose_runs) (by decide +kernel)

end Chat
