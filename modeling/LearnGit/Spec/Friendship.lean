import LearnGit.Spec.FriendTable

/-!
# Friends

The client that agrees or refuses sends its own id first, and the statements take it for the
one that applied: they look for the row in the direction in which there is none. An agreement
then makes one of the two a friend of the other only, and a refusal leaves the application.

## Key results

- `mutual_iff`: the runs throughout which friendship is mutual
- `lifecycle_iff`: the runs throughout which friends have agreed and refusals have worked
-/

namespace Chat

open Transition

variable {h : List (ChatWorld × FriendEvent)} {w : ChatWorld} {e : FriendEvent}

/-- Two users with an account. -/
def TwoUsers (w : ChatWorld) (u f : Int) : Prop := u ≠ f ∧ Registered w u ∧ Registered w f

instance (w : ChatWorld) (u f : Int) : Decidable (TwoUsers w u f) :=
  inferInstanceAs (Decidable (_ ∧ _))

/-! ## Mutual friendship -/

/-- Whoever is in the list of a user has this user in the own list. -/
def Mutual (w : ChatWorld) : Prop :=
  ∀ a b, Registered w a → Registered w b → (InFriendList w a b ↔ InFriendList w b a)

theorem mutual_iff_accepted :
    Mutual w ↔ ∀ a b, Registered w a → Registered w b → Accepted w a b → Accepted w b a := by
  constructor
  · intro hmutual a b ha hb hacc
    exact (inFriendList_iff.mp ((hmutual a b ha hb).mp (inFriendList_iff.mpr ⟨hacc, hb⟩))).1
  · intro hacc a b ha hb
    rw [inFriendList_iff, inFriendList_iff]
    exact ⟨fun hab => ⟨hacc a b ha hb hab.1, ha⟩, fun hba => ⟨hacc b a hb ha hba.1, hb⟩⟩

/-- An agreement finds the row of its own direction, and a refusal finds no friendship. -/
def RowsMatch (_ : List (ChatWorld × FriendEvent)) (w : ChatWorld) : FriendEvent → Prop
  | .add .. => True
  | .agree u f _ => TwoUsers w u f → HasRow w u f
  | .refuse u f => TwoUsers w u f → ¬ Accepted w u f

instance (h : List (ChatWorld × FriendEvent)) (w : ChatWorld) (e : FriendEvent) :
    Decidable (RowsMatch h w e) := by
  cases e <;> unfold RowsMatch <;> infer_instance

theorem mutual_agree_iff {u f : Int} {now : Varchar} (hmutual : Mutual w) :
    Mutual (FriendEvent.handle w (.agree u f now)) ↔ (TwoUsers w u f → HasRow w u f) := by
  rw [mutual_iff_accepted] at hmutual ⊢
  simp only [registered_handle_iff, accepted_agree_iff]
  constructor
  · -- after the agreement `u` is a friend of `f`, so `f` has to be one of `u`
    rintro hall ⟨hne, hu, hf⟩
    cases hall f u hf hu (.inr (.inl rfl)) with
    | inl hacc => exact hacc.hasRow
    | inr hset =>
      cases hset with
      | inl heq => exact absurd (Prod.mk.inj heq).1 hne
      | inr hrow => exact hrow.2
  · rintro hrow a b ha hb (hacc | heq | ⟨heq, -⟩)
    · exact .inl (hmutual a b ha hb hacc)
    · obtain ⟨rfl, rfl⟩ := Prod.mk.inj heq
      by_cases hab : a = b
      · exact .inr (.inl (by rw [hab]))
      · exact .inr (.inr ⟨rfl, hrow ⟨Ne.symm hab, hb, ha⟩⟩)
    · obtain ⟨rfl, rfl⟩ := Prod.mk.inj heq
      exact .inr (.inl rfl)

theorem mutual_refuse_iff {u f : Int} (hmutual : Mutual w) :
    Mutual (FriendEvent.handle w (.refuse u f)) ↔ (TwoUsers w u f → ¬ Accepted w u f) := by
  rw [mutual_iff_accepted] at hmutual ⊢
  simp only [registered_handle_iff, accepted_refuse_iff]
  constructor
  · rintro hall ⟨hne, hu, hf⟩ hacc
    -- the friendship in the other direction stays
    have hother := hall f u hf hu
      ⟨hmutual u f hu hf hacc, fun heq => hne (Prod.mk.inj heq).2⟩
    exact hother.2 rfl
  · rintro hnot a b ha hb ⟨hacc, hne⟩
    have hback := hmutual a b ha hb hacc
    refine ⟨hback, fun heq => ?_⟩
    obtain ⟨rfl, rfl⟩ := Prod.mk.inj heq
    exact hnot ⟨fun hab => hne (by rw [hab]), hb, ha⟩ hback

theorem mutual_handle_iff (hmutual : Mutual w) : Mutual (e.handle w) ↔ RowsMatch h w e := by
  cases e with
  | add conn u f now =>
    refine iff_of_true ?_ trivial
    rw [mutual_iff_accepted] at hmutual ⊢
    simp only [registered_handle_iff, accepted_add_iff]
    exact hmutual
  | agree u f now => exact mutual_agree_iff hmutual
  | refuse u f => exact mutual_refuse_iff hmutual

theorem not_accepted_of_init (hinit : friendSystem.init w) (x y : Int) : ¬ Accepted w x y := by
  rintro ⟨r, hr, -⟩
  have hempty : w.db.friend = .empty FriendRow.key := hinit
  rw [hempty] at hr
  exact absurd hr (by simp)

/-- Friendship is mutual throughout a run exactly if each agreement finds the row of its own
    direction and no refusal finds a friendship. -/
theorem mutual_iff (hrun : Run friendSystem h w) :
    Throughout (fun _ w => Mutual w) h w ↔ StepsMeet RowsMatch h := by
  refine hrun.throughout_iff (I := fun _ w => Mutual w) (fun w hinit => ?_) (fun _ _ hI => hI)
    (fun h w e w' _ hI hstep hC => ?_) fun h w e w' _ hI hstep hP => ?_
  · rw [mutual_iff_accepted]
    exact fun a b _ _ hacc => absurd hacc (not_accepted_of_init hinit a b)
  · obtain rfl := Option.some.inj hstep
    exact (mutual_handle_iff hI).mpr hC
  · obtain rfl := Option.some.inj hstep
    exact (mutual_handle_iff hI).mp hP

/-! ## Applications, agreements and refusals -/

/-- `x` has applied to `y`, and `y` has then agreed while the application was in the list. -/
def Consented (h : List (ChatWorld × FriendEvent)) (x y : Int) : Prop :=
  ∃ h₁ w now h₂, h = h₁ ++ (w, .agree y x now) :: h₂ ∧ InApplyList w y x ∧
    ∃ p ∈ h₂, p.2.IsAdd x y

/-- Friends are those of whom one has applied and the other one has agreed. -/
def FriendsConsented (h : List (ChatWorld × FriendEvent)) (w : ChatWorld) : Prop :=
  ∀ a b, a ≠ b → Registered w a → Registered w b → InFriendList w a b →
    Consented h a b ∨ Consented h b a

/-- If the last request refused an application in the list, it is gone, and all friends are
    as before. -/
def LastRefusal : List (ChatWorld × FriendEvent) → ChatWorld → Prop
  | (v, .refuse a b) :: _, w =>
    InApplyList v a b → ¬ InApplyList w a b ∧ ∀ x y, InFriendList w x y ↔ InFriendList v x y
  | _, _ => True

/-- The life cycle of a request, at one moment of a run. -/
def Lifecycle (h : List (ChatWorld × FriendEvent)) (w : ChatWorld) : Prop :=
  FriendsConsented h w ∧ LastRefusal h w

/-- An agreement answers an application or repeats one that did, and a refusal finds no
    application of another user. -/
def Answers (h : List (ChatWorld × FriendEvent)) (w : ChatWorld) : FriendEvent → Prop
  | .add .. => True
  | .agree u f _ => TwoUsers w u f → InApplyList w u f ∨ Consented h u f ∨ Consented h f u
  | .refuse a b => a ≠ b → ¬ InApplyList w a b

theorem Consented.cons {x y : Int} (hcon : Consented h x y) (p : ChatWorld × FriendEvent) :
    Consented (p :: h) x y := by
  obtain ⟨h₁, v, now, h₂, rfl, hrest⟩ := hcon
  exact ⟨p :: h₁, v, now, h₂, rfl, hrest⟩

theorem Consented.of_cons {x y : Int} (hcon : Consented ((w, e) :: h) x y) :
    Consented h x y ∨ InApplyList w y x ∧ ∃ now, e = .agree y x now := by
  obtain ⟨h₁, v, now, h₂, heq, hlist, hadd⟩ := hcon
  cases h₁ with
  | nil =>
    obtain ⟨hhead, rfl⟩ := List.cons.inj heq
    obtain ⟨rfl, rfl⟩ := Prod.mk.inj hhead
    exact .inr ⟨hlist, now, rfl⟩
  | cons p h₁ => exact .inl ⟨h₁, v, now, h₂, (List.cons.inj heq).2, hlist, hadd⟩

/-- The life cycle up to a moment, and that every row of status 0 comes from an application. -/
structure LifecycleInv (h : List (ChatWorld × FriendEvent)) (w : ChatWorld) : Prop where
  consented : FriendsConsented h w
  refusal : LastRefusal h w
  applied : ∀ x y, Pending w x y → ∃ p ∈ h, p.2.IsAdd x y

theorem LifecycleInv.init (hinit : friendSystem.init w) : LifecycleInv [] w := by
  refine ⟨fun a b _ _ _ hlist => ?_, trivial, fun x y hpend => ?_⟩
  · exact absurd (inFriendList_iff.mp hlist).1 (not_accepted_of_init hinit a b)
  · obtain ⟨r, hr, -⟩ := hpend
    have hempty : w.db.friend = .empty FriendRow.key := hinit
    rw [hempty] at hr
    exact absurd hr (by simp)

/-- A refusal of one's own application is the only one that finds its row. -/
theorem lastRefusal_iff : LastRefusal ((w, e) :: h) (e.handle w) ↔
    ∀ a b, e = .refuse a b → a ≠ b → ¬ InApplyList w a b := by
  cases e with
  | add conn u f now => exact iff_of_true trivial fun _ _ heq => by simp at heq
  | agree u f now => exact iff_of_true trivial fun _ _ heq => by simp at heq
  | refuse a b =>
    unfold LastRefusal
    constructor
    · rintro hworks _ _ heq hne hlist
      obtain ⟨rfl, rfl⟩ := FriendEvent.refuse.inj heq
      refine (hworks hlist).1 (inApplyList_iff.mpr ⟨pending_refuse_iff.mpr ⟨?_, ?_⟩, ?_⟩)
      · exact (inApplyList_iff.mp hlist).1
      · exact fun hsame => hne (Prod.mk.inj hsame).2
      · exact registered_handle_iff.mpr (inApplyList_iff.mp hlist).2
    · intro hnot hlist
      -- the row that is deleted is the one of the application only if the two are one user
      have hself : a = b := by
        by_contra hne
        exact hnot a b rfl hne hlist
      subst hself
      have hpend := (inApplyList_iff.mp hlist).1
      refine ⟨fun hlist' => ?_, fun x y => ?_⟩
      · exact (pending_refuse_iff.mp (inApplyList_iff.mp hlist').1).2 rfl
      · rw [inFriendList_iff, inFriendList_iff, accepted_refuse_iff, registered_handle_iff]
        refine and_congr_left fun _ => and_iff_left_of_imp fun hacc heq => ?_
        obtain ⟨rfl, rfl⟩ := Prod.mk.inj heq
        exact hacc.not_pending hpend

/-- Who has agreed before a request has agreed after it. -/
theorem consented_cons_of_friends (hI : LifecycleInv h w) {a b : Int} (hne : a ≠ b)
    (ha : Registered w a) (hb : Registered w b) (hacc : Accepted w a b)
    (p : ChatWorld × FriendEvent) : Consented (p :: h) a b ∨ Consented (p :: h) b a := by
  cases hI.consented a b hne ha hb (inFriendList_iff.mpr ⟨hacc, hb⟩) with
  | inl hab => exact .inl (hab.cons p)
  | inr hba => exact .inr (hba.cons p)

/-- The two of an agreement. -/
theorem consented_cons_of_answers (hI : LifecycleInv h w) {u f : Int} {now : Varchar}
    (htwo : TwoUsers w u f) (hC : Answers h w (.agree u f now)) :
    Consented ((w, .agree u f now) :: h) u f ∨ Consented ((w, .agree u f now) :: h) f u := by
  cases hC htwo with
  | inl happly =>
    have hadd := hI.applied f u (inApplyList_iff.mp happly).1
    exact .inr ⟨[], w, now, h, rfl, happly, hadd⟩
  | inr hcon =>
    cases hcon with
    | inl huf => exact .inl (huf.cons _)
    | inr hfu => exact .inr (hfu.cons _)

theorem LifecycleInv.friendsConsented (hI : LifecycleInv h w) (hC : Answers h w e) :
    FriendsConsented ((w, e) :: h) (e.handle w) := by
  intro a b hne ha hb hlist
  rw [registered_handle_iff] at ha hb
  have hacc := (inFriendList_iff.mp hlist).1
  cases e with
  | add conn u f now =>
    exact consented_cons_of_friends hI hne ha hb (accepted_add_iff.mp hacc) _
  | refuse u f =>
    exact consented_cons_of_friends hI hne ha hb (accepted_refuse_iff.mp hacc).1 _
  | agree u f now =>
    obtain hacc | heq | ⟨heq, -⟩ := accepted_agree_iff.mp hacc
    · exact consented_cons_of_friends hI hne ha hb hacc _
    · obtain ⟨rfl, rfl⟩ := Prod.mk.inj heq
      exact (consented_cons_of_answers hI ⟨hne.symm, hb, ha⟩ hC).symm
    · obtain ⟨rfl, rfl⟩ := Prod.mk.inj heq
      exact consented_cons_of_answers hI ⟨hne, ha, hb⟩ hC

theorem LifecycleInv.step (hI : LifecycleInv h w) (hC : Answers h w e) :
    LifecycleInv ((w, e) :: h) (e.handle w) := by
  refine ⟨hI.friendsConsented hC, lastRefusal_iff.mpr fun a b heq hne => ?_, fun x y hpend => ?_⟩
  · subst heq
    exact hC hne
  · cases hpend.of_handle with
    | inl hpend =>
      obtain ⟨p, hp, hadd⟩ := hI.applied x y hpend
      exact ⟨p, List.mem_cons_of_mem _ hp, hadd⟩
    | inr hadd => exact ⟨(w, e), List.mem_cons_self, hadd⟩

theorem answers_of_lifecycle (hP : Lifecycle ((w, e) :: h) (e.handle w)) : Answers h w e := by
  obtain ⟨hconsented, hrefusal⟩ := hP
  cases e with
  | add conn u f now => trivial
  | refuse a b => exact lastRefusal_iff.mp hrefusal a b rfl
  | agree u f now =>
    rintro ⟨hne, hu, hf⟩
    -- the row that the agreement always sets puts `u` into the list of `f`
    have hlist : InFriendList (FriendEvent.handle w (.agree u f now)) f u :=
      inFriendList_iff.mpr
        ⟨accepted_agree_iff.mpr (.inr (.inl rfl)), registered_handle_iff.mpr hu⟩
    cases hconsented f u hne.symm (registered_handle_iff.mpr hf) (registered_handle_iff.mpr hu)
      hlist with
    | inl hfu =>
      cases hfu.of_cons with
      | inl hold => exact .inr (.inr hold)
      | inr hnow => exact .inl hnow.1
    | inr huf =>
      cases huf.of_cons with
      | inl hold => exact .inr (.inl hold)
      | inr hnow =>
        obtain ⟨-, _, heq⟩ := hnow
        exact absurd (FriendEvent.agree.inj heq).1 hne

/-- The life cycle is respected throughout a run exactly if each agreement answers an
    application or repeats one that did, and no refusal finds an application. -/
theorem lifecycle_iff (hrun : Run friendSystem h w) :
    Throughout Lifecycle h w ↔ StepsMeet Answers h := by
  refine hrun.throughout_iff (I := LifecycleInv) (fun w => LifecycleInv.init)
    (fun _ _ hI => ⟨hI.consented, hI.refusal⟩) (fun h w e w' _ hI hstep hC => ?_)
    fun h w e w' _ hI hstep hP => ?_
  · obtain rfl := Option.some.inj hstep
    exact hI.step hC
  · obtain rfl := Option.some.inj hstep
    exact answers_of_lifecycle hP

/-! ## An application and its answer -/

/-- The history and the tables after some requests of the two. -/
def friendSchedule (es : List FriendEvent) :
    Option (List (ChatWorld × FriendEvent) × ChatWorld) :=
  friendSystem.exec [] twoUsersWorld es

theorem friendSchedule_run {es : List FriendEvent} (hsome : (friendSchedule es).isSome) :
    Run friendSystem ((friendSchedule es).get hsome).1 ((friendSchedule es).get hsome).2 :=
  Run.of_exec (S := friendSystem) (s := twoUsersWorld) rfl hsome

/-- User 2 applies to user 1, who agrees. -/
def applyThenAgree : List FriendEvent := [.add 2 2 1 default, .agree 1 2 default]

theorem applyThenAgree_runs : (friendSchedule applyThenAgree).isSome := by decide +kernel

theorem not_mutual :
    ¬ ∀ (h : List (ChatWorld × FriendEvent)) (w : ChatWorld), Run friendSystem h w → Mutual w := by
  intro hall
  have hback := (hall _ _ (friendSchedule_run applyThenAgree_runs) 2 1 (by decide +kernel)
    (by decide +kernel)).mp (by decide +kernel)
  exact absurd hback (by decide +kernel)

theorem lifecycle_applyThenAgree :
    Throughout Lifecycle ((friendSchedule applyThenAgree).get applyThenAgree_runs).1
      ((friendSchedule applyThenAgree).get applyThenAgree_runs).2 := by
  refine (lifecycle_iff (friendSchedule_run applyThenAgree_runs)).mpr ?_
  refine And.intro ?_ (And.intro ?_ ?_)
  · exact fun _ => .inl (by decide +kernel)
  · trivial
  · trivial

/-- The applicant agrees, whose row is the one that there is. -/
def applyThenAgreeOneself : List FriendEvent := [.add 2 2 1 default, .agree 2 1 default]

theorem applyThenAgreeOneself_runs : (friendSchedule applyThenAgreeOneself).isSome := by
  decide +kernel

theorem mutual_applyThenAgreeOneself :
    Throughout (fun _ w => Mutual w)
      ((friendSchedule applyThenAgreeOneself).get applyThenAgreeOneself_runs).1
      ((friendSchedule applyThenAgreeOneself).get applyThenAgreeOneself_runs).2 :=
  (mutual_iff (friendSchedule_run applyThenAgreeOneself_runs)).mpr (by decide +kernel)

/-- User 2 applies to user 1, who refuses. -/
def applyThenRefuse : List FriendEvent := [.add 2 2 1 default, .refuse 1 2]

theorem applyThenRefuse_runs : (friendSchedule applyThenRefuse).isSome := by decide +kernel

theorem refusal_ignored :
    ¬ ∀ (h : List (ChatWorld × FriendEvent)) (w : ChatWorld),
      Run friendSystem h w → Lifecycle h w := by
  intro hall
  obtain ⟨-, hrefusal⟩ := hall _ _ (friendSchedule_run applyThenRefuse_runs)
  have hgone := (hrefusal (by decide +kernel)).1
  exact hgone (by decide +kernel)

end Chat
