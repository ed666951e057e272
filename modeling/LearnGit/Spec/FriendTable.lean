import LearnGit.Native.ChatSystem

/-!
# The rows of the friend table

A row `(u, v)` of status 0 is an application of `u` to `v`, and one of status 1 puts `v` into
the list of friends of `u`. What the three requests do to the rows.

## Key results

- `accepted_add_iff`, `accepted_agree_iff`, `accepted_refuse_iff`: the rows of status 1 after a
  request
- `Pending.of_handle`: where the rows of status 0 come from
-/

namespace Chat

open ChatService UserModel

/-- The user has an account. -/
def Registered (w : ChatWorld) (u : Int) : Prop := (w.db.user.find? u).isSome

instance (w : ChatWorld) (u : Int) : Decidable (Registered w u) :=
  inferInstanceAs (Decidable (_ = true))

/-- The row `(u, v)` is there. -/
def HasRow (w : ChatWorld) (u v : Int) : Prop := (w.db.friend.find? (u, v)).isSome

instance (w : ChatWorld) (u v : Int) : Decidable (HasRow w u v) :=
  inferInstanceAs (Decidable (_ = true))

/-- The row `(u, v)` has status 1. -/
def Accepted (w : ChatWorld) (u v : Int) : Prop :=
  ∃ r, w.db.friend.find? (u, v) = some r ∧ r.status = 1

/-- The row `(u, v)` has status 0. -/
def Pending (w : ChatWorld) (u v : Int) : Prop :=
  ∃ r, w.db.friend.find? (u, v) = some r ∧ r.status = 0

/-- The other user is in the list that is sent for a user. -/
def InFriendList (w : ChatWorld) (u v : Int) : Prop :=
  v ∈ (getFriendList w.db u).map FriendApply.userId

def InApplyList (w : ChatWorld) (u v : Int) : Prop :=
  v ∈ (getApplyList w.db u).map FriendApply.userId

instance (w : ChatWorld) (u v : Int) : Decidable (InFriendList w u v) :=
  inferInstanceAs (Decidable (_ ∈ _))

instance (w : ChatWorld) (u v : Int) : Decidable (InApplyList w u v) :=
  inferInstanceAs (Decidable (_ ∈ _))

theorem inFriendList_iff {w : ChatWorld} {u v : Int} :
    InFriendList w u v ↔ Accepted w u v ∧ Registered w v := mem_getFriendList

theorem inApplyList_iff {w : ChatWorld} {u v : Int} :
    InApplyList w u v ↔ Pending w v u ∧ Registered w v := mem_getApplyList

theorem Accepted.hasRow {w : ChatWorld} {u v : Int} (hacc : Accepted w u v) : HasRow w u v := by
  obtain ⟨r, hr, -⟩ := hacc
  exact Option.isSome_of_eq_some hr

theorem Accepted.not_pending {w : ChatWorld} {u v : Int} (hacc : Accepted w u v) :
    ¬ Pending w u v := by
  obtain ⟨r, hr, hone⟩ := hacc
  rintro ⟨r', hr', hzero⟩
  rw [hr] at hr'
  rw [← Option.some.inj hr', hone] at hzero
  exact absurd hzero (by decide)

/-! ## After a request -/

variable {w : ChatWorld} {e : FriendEvent} {x y : Int}

/-- No request changes the accounts. -/
@[simp] theorem registered_handle_iff : Registered (e.handle w) x ↔ Registered w x := by
  cases e with
  | add conn u f now =>
    unfold FriendEvent.handle addfriend applyFriend
    dsimp only
    cases w.db.friend.insert ⟨u, f, 0, now⟩ <;> exact Iff.rfl
  | agree u f now => exact Iff.rfl
  | refuse u f => exact Iff.rfl

/-- An application adds a row of status 0, unless there is a row. -/
theorem find?_add {conn : Nat} {u f : Int} {now : Varchar} (k : Int × Int) :
    (FriendEvent.handle w (.add conn u f now)).db.friend.find? k =
      if k = (u, f) ∧ ¬ HasRow w u f then some ⟨u, f, 0, now⟩ else w.db.friend.find? k := by
  unfold FriendEvent.handle addfriend applyFriend
  dsimp only
  cases hinsert : w.db.friend.insert ⟨u, f, 0, now⟩ with
  | none =>
    -- the key is there already, in whatever status
    have hrow : HasRow w u f := Table.insert_eq_none_iff.mp hinsert
    exact (if_neg fun h => h.2 hrow).symm
  | some t =>
    have hnone : ¬ HasRow w u f := by
      unfold HasRow
      have hfind : w.db.friend.find? (u, f) = none := Table.find?_of_insert hinsert
      rw [hfind]
      simp
    have hfind := Table.find?_insert hinsert k
    simp only [hnone, not_false_eq_true, and_true]
    exact hfind

/-- Agreeing sets the own row to status 1 where it is there, and the other one anyway. -/
theorem find?_agree {u f : Int} {now : Varchar} (k : Int × Int) :
    ((FriendEvent.handle w (.agree u f now)).db.friend.find? k).map FriendRow.status =
      if k = (f, u) ∨ k = (u, f) ∧ HasRow w u f then some 1
      else (w.db.friend.find? k).map FriendRow.status := by
  have hupdate := Table.find?_update (t := w.db.friend) (k := (u, f))
    (f := fun r : FriendRow => { r with status := 1 }) (fun _ => rfl) k
  have hupsert := Table.find?_upsert
    (t := w.db.friend.update (u, f) (fun r => { r with status := 1 }) fun _ => rfl)
    (r := (⟨f, u, 1, now⟩ : FriendRow)) (f := fun r => { r with status := 1 }) (fun _ => rfl) k
  have hhandle : (FriendEvent.handle w (.agree u f now)).db.friend =
      (w.db.friend.update (u, f) (fun r => { r with status := 1 }) fun _ => rfl).upsert
        ⟨f, u, 1, now⟩ (fun r => { r with status := 1 }) fun _ => rfl := rfl
  have hkey : FriendRow.key ⟨f, u, 1, now⟩ = (f, u) := rfl
  rw [hhandle, hupsert, hkey]
  -- the row of the other direction first: for `f = u` it is also the own one
  by_cases hother : k = (f, u)
  · rw [if_pos hother, if_pos (.inl hother)]
    cases (w.db.friend.update (u, f) (fun r => { r with status := 1 }) fun _ => rfl).find? k <;> rfl
  · rw [if_neg hother, hupdate]
    by_cases hown : k = (u, f)
    · subst hown
      rw [if_pos rfl]
      cases hrow : w.db.friend.find? (u, f) with
      | none => simp [HasRow, hrow, hother]
      | some r => simp [HasRow, hrow]
    · rw [if_neg hown, if_neg (by simp [hother, hown])]

theorem find?_refuse {u f : Int} (k : Int × Int) :
    (FriendEvent.handle w (.refuse u f)).db.friend.find? k =
      if k = (u, f) then none else w.db.friend.find? k :=
  Table.find?_delete k

/-! ## Which rows are accepted and pending -/

section Status

variable {k : Int × Int} {n : Nat}

/-- The row has the status. -/
private theorem status_iff {w : ChatWorld} :
    (∃ r, w.db.friend.find? k = some r ∧ r.status = n) ↔
      (w.db.friend.find? k).map FriendRow.status = some n := by
  rw [Option.map_eq_some_iff]

theorem accepted_iff_status {u v : Int} :
    Accepted w u v ↔ (w.db.friend.find? (u, v)).map FriendRow.status = some 1 := status_iff

theorem pending_iff_status {u v : Int} :
    Pending w u v ↔ (w.db.friend.find? (u, v)).map FriendRow.status = some 0 := status_iff

end Status

instance (w : ChatWorld) (u v : Int) : Decidable (Accepted w u v) :=
  decidable_of_iff _ accepted_iff_status.symm

theorem accepted_add_iff {conn : Nat} {u f : Int} {now : Varchar} :
    Accepted (FriendEvent.handle w (.add conn u f now)) x y ↔ Accepted w x y := by
  unfold Accepted
  rw [find?_add]
  split
  · next hnew =>
    obtain ⟨heq, hnone⟩ := hnew
    refine iff_of_false (by simp) fun hacc => hnone ?_
    obtain ⟨rfl, rfl⟩ := Prod.mk.inj heq
    exact Accepted.hasRow hacc
  · exact Iff.rfl

theorem accepted_agree_iff {u f : Int} {now : Varchar} :
    Accepted (FriendEvent.handle w (.agree u f now)) x y ↔
      Accepted w x y ∨ (x, y) = (f, u) ∨ (x, y) = (u, f) ∧ HasRow w u f := by
  rw [accepted_iff_status, find?_agree, accepted_iff_status]
  split
  · next hset => exact iff_of_true rfl (.inr hset)
  · next hset => exact ⟨.inl, fun hacc => hacc.resolve_right hset⟩

theorem accepted_refuse_iff {u f : Int} :
    Accepted (FriendEvent.handle w (.refuse u f)) x y ↔ Accepted w x y ∧ (x, y) ≠ (u, f) := by
  unfold Accepted
  rw [find?_refuse]
  split
  · next heq => exact iff_of_false (by simp) fun hacc => hacc.2 heq
  · next hne => exact (and_iff_left hne).symm

theorem pending_refuse_iff {u f : Int} :
    Pending (FriendEvent.handle w (.refuse u f)) x y ↔ Pending w x y ∧ (x, y) ≠ (u, f) := by
  unfold Pending
  rw [find?_refuse]
  split
  · next heq => exact iff_of_false (by simp) fun hpend => hpend.2 heq
  · next hne => exact (and_iff_left hne).symm

/-- The event is an application of one user to another. -/
def FriendEvent.IsAdd (e : FriendEvent) (u f : Int) : Prop :=
  ∃ conn now, e = .add conn u f now

/-- A row of status 0 was there, or it is what an application has just added. -/
theorem Pending.of_handle (hpend : Pending (e.handle w) x y) :
    Pending w x y ∨ e.IsAdd x y := by
  cases e with
  | add conn u f now =>
    unfold Pending at hpend
    rw [find?_add] at hpend
    split at hpend
    · next hnew =>
      obtain ⟨rfl, rfl⟩ := Prod.mk.inj hnew.1
      exact .inr ⟨conn, now, rfl⟩
    · exact .inl hpend
  | agree u f now =>
    -- the rows that an agreement touches get status 1
    rw [pending_iff_status, find?_agree] at hpend
    split at hpend
    · exact absurd hpend (by simp)
    · exact .inl (pending_iff_status.mpr hpend)
  | refuse u f => exact .inl (pending_refuse_iff.mp hpend).1

end Chat
