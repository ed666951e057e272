import Mathlib.Data.Finset.Max
import Mathlib.Data.List.Infix

/-!
# Replicated logs

Facts about logs whose entries carry a term, over any entry type: when two logs
match (an equal term at a position means an equal history up to it), and what
splicing a section of one log into another one keeps.

## Key results

- `exists_extension`: finitely many compatible logs are prefixes of one of them
- `Matching.isPrefix_iff`: of two matching logs one holds the other if it holds its last entry
- `Splice.keeps`: splicing a section of `K` keeps every prefix that is compatible with `K`
- `Splice.agrees`: a second splice of the same entries changes nothing
- `Splice.isPrefix_or_keep`: between matching logs a splice gives a prefix of `K` or
  changes nothing
- `Splice.sameTermAt_iff`: where the two logs agree after a splice
-/

namespace ReplicatedLog

variable {α : Type*}

/-! ## Prefixes by position -/

theorem getElem?_of_isPrefix {P L : List α} (h : P <+: L) {i : Nat} {e : α}
    (he : P[i]? = some e) : L[i]? = some e := by
  obtain ⟨t, rfl⟩ := h
  obtain ⟨hi, -⟩ := List.getElem?_eq_some_iff.mp he
  rw [List.getElem?_append_left hi]
  exact he

theorem getElem?_eq_of_isPrefix {P L : List α} (h : P <+: L) {i : Nat} (hi : i < P.length) :
    L[i]? = P[i]? := by
  obtain ⟨t, rfl⟩ := h
  exact List.getElem?_append_left hi

/-- A prefix of `L` of the length `i + 1` ends with the entry of `L` at `i`. -/
theorem getElem?_eq_of_take_eq {L₁ L₂ : List α} {n i : Nat} (h : L₁.take n = L₂.take n)
    (hi : i < n) : L₁[i]? = L₂[i]? := by
  rw [← List.getElem?_take_of_lt hi, h, List.getElem?_take_of_lt hi]

/-- Prefixes of one list give equal initial segments. -/
theorem take_eq_of_isPrefix {P L : List α} {n : Nat} (h : P <+: L) (hn : n ≤ P.length) :
    P.take n = L.take n := by
  obtain ⟨t, rfl⟩ := h
  rw [List.take_append_of_le_length hn]

/-! ## Compatible logs -/

/-- One of the two logs extends the other one. -/
def Compatible (P K : List α) : Prop := P <+: K ∨ K <+: P

theorem Compatible.symm {P K : List α} (h : Compatible P K) : Compatible K P := Or.symm h

theorem Compatible.getElem? {P K : List α} (h : Compatible P K) {i : Nat} {a b : α}
    (ha : P[i]? = some a) (hb : K[i]? = some b) : a = b := by
  rcases h with h | h
  · exact Option.some.inj ((getElem?_of_isPrefix h ha).symm.trans hb)
  · exact Option.some.inj (ha.symm.trans (getElem?_of_isPrefix h hb))

/-- Two prefixes of one log are compatible. -/
theorem Compatible.of_isPrefix {P Q L : List α} (hP : P <+: L) (hQ : Q <+: L) :
    Compatible P Q :=
  List.prefix_or_prefix_of_prefix hP hQ

/-- A prefix of a log is compatible with everything the log is compatible with. -/
theorem Compatible.of_isPrefix_left {P L K : List α} (hP : P <+: L) (h : Compatible L K) :
    Compatible P K := by
  rcases h with h | h
  · exact .inl (hP.trans h)
  · exact .of_isPrefix hP h

/-- Two logs that agree wherever both have a position are compatible. -/
theorem Compatible.of_agree {P K : List α}
    (h : ∀ (i : Nat) (a b : α), P[i]? = some a → K[i]? = some b → a = b) : Compatible P K := by
  have key : ∀ {P K : List α}, P.length ≤ K.length →
      (∀ (i : Nat) (a b : α), P[i]? = some a → K[i]? = some b → a = b) → P <+: K := by
    intro P K hle h
    rw [List.prefix_iff_getElem?]
    intro i hi
    have hget := List.getElem?_eq_getElem (l := K) (i := i) (by omega)
    rw [hget, h i _ _ (List.getElem?_eq_getElem hi) hget]
  rcases Nat.le_total P.length K.length with hle | hle
  · exact .inl (key hle h)
  · exact .inr (key hle fun i a b ha hb => (h i b a hb ha).symm)

/-- Of finitely many compatible logs the longest one extends all others. -/
theorem exists_extension {ι : Type*} (s : Finset ι) (f : ι → List α)
    (h : ∀ i ∈ s, ∀ j ∈ s, Compatible (f i) (f j)) :
    ∃ L, (L = [] ∨ ∃ i ∈ s, L = f i) ∧ ∀ i ∈ s, f i <+: L := by
  rcases s.eq_empty_or_nonempty with rfl | hne
  · exact ⟨[], .inl rfl, fun i hi => absurd hi (Finset.notMem_empty i)⟩
  · obtain ⟨j, hj, hmax⟩ := s.exists_max_image (fun i => (f i).length) hne
    refine ⟨f j, .inr ⟨j, hj, rfl⟩, fun i hi => ?_⟩
    rcases h i hi j hj with hpre | hpre
    · exact hpre
    · rw [hpre.eq_of_length_le (hmax i hi)]

/-! ## Matching logs -/

section Matching

variable {term : α → Nat}

/-- Log matching: where two logs hold entries of the same term at the same
    position, they are equal up to that position. -/
def Matching (term : α → Nat) (L₁ L₂ : List α) : Prop :=
  ∀ i e₁ e₂, L₁[i]? = some e₁ → L₂[i]? = some e₂ → term e₁ = term e₂ →
    L₁.take (i + 1) = L₂.take (i + 1)

theorem Matching.symm {L₁ L₂ : List α} (h : Matching term L₁ L₂) : Matching term L₂ L₁ :=
  fun i e₁ e₂ h₁ h₂ ht => (h i e₂ e₁ h₂ h₁ ht.symm).symm

/-- Both logs hold an entry at the position, and the two entries have the same term. -/
def SameTermAt (term : α → Nat) (L₁ L₂ : List α) (i : Nat) : Prop :=
  i < L₁.length ∧ L₁[i]?.map term = L₂[i]?.map term

instance SameTermAt.decidable (L₁ L₂ : List α) (i : Nat) :
    Decidable (SameTermAt term L₁ L₂ i) :=
  inferInstanceAs (Decidable (_ ∧ _))

theorem sameTermAt_iff {L₁ L₂ : List α} {i : Nat} : SameTermAt term L₁ L₂ i ↔
    ∃ e₁ e₂, L₁[i]? = some e₁ ∧ L₂[i]? = some e₂ ∧ term e₁ = term e₂ := by
  constructor
  · rintro ⟨hlt, hterm⟩
    rw [List.getElem?_eq_getElem hlt, Option.map_some, eq_comm, Option.map_eq_some_iff] at hterm
    obtain ⟨e₂, he₂, ht⟩ := hterm
    exact ⟨_, e₂, List.getElem?_eq_getElem hlt, he₂, ht.symm⟩
  · rintro ⟨e₁, e₂, he₁, he₂, ht⟩
    refine ⟨(List.getElem?_eq_some_iff.mp he₁).1, ?_⟩
    rw [he₁, he₂, Option.map_some, Option.map_some, ht]

theorem Matching.take_eq {L₁ L₂ : List α} {i : Nat} (h : Matching term L₁ L₂)
    (hsame : SameTermAt term L₁ L₂ i) : L₁.take (i + 1) = L₂.take (i + 1) := by
  obtain ⟨e₁, e₂, he₁, he₂, ht⟩ := sameTermAt_iff.mp hsame
  exact h i e₁ e₂ he₁ he₂ ht

theorem sameTermAt_of_take_eq {L₁ L₂ : List α} {i : Nat} (htake : L₁.take (i + 1) = L₂.take (i + 1))
    (hi : i < L₁.length) : SameTermAt term L₁ L₂ i := by
  refine ⟨hi, ?_⟩
  rw [getElem?_eq_of_take_eq htake (Nat.lt_succ_self i)]

/-- Matching logs that hold entries of the same term somewhere do so everywhere before. -/
theorem SameTermAt.of_le {L₁ L₂ : List α} {i j : Nat} (hsame : SameTermAt term L₁ L₂ i)
    (h : Matching term L₁ L₂) (hle : j ≤ i) : SameTermAt term L₁ L₂ j := by
  have htake := h.take_eq hsame
  refine sameTermAt_of_take_eq ?_ (Nat.lt_of_le_of_lt hle hsame.1)
  have := congrArg (List.take (j + 1)) htake
  rwa [List.take_take, List.take_take, Nat.min_eq_left (Nat.succ_le_succ hle)] at this

/-- One of two matching logs holds all of the other exactly if it holds its last entry. -/
theorem Matching.isPrefix_iff {L₁ L₂ : List α} (h : Matching term L₁ L₂) (hpos : 0 < L₁.length) :
    L₁ <+: L₂ ↔ SameTermAt term L₁ L₂ (L₁.length - 1) := by
  have hlast : L₁.length - 1 + 1 = L₁.length := Nat.sub_add_cancel hpos
  constructor
  · intro hpre
    refine sameTermAt_of_take_eq ?_ (Nat.sub_lt hpos Nat.one_pos)
    rw [hlast]
    exact take_eq_of_isPrefix hpre (Nat.le_refl _)
  · intro hsame
    have htake := h.take_eq hsame
    rw [hlast, List.take_length] at htake
    rw [htake]
    exact List.take_prefix _ _

end Matching

/-! ## Splicing a section of one log into another one -/

section Splice

variable {term : α → Nat} {L K R es : List α} {p : Nat}

/-- `es` is what follows position `p` in `K`. -/
def Section (K : List α) (p : Nat) (es : List α) : Prop := es <+: K.drop (p + 1)

theorem Section.getElem? (h : Section K p es) {k : Nat} {e : α} (he : es[k]? = some e) :
    K[p + 1 + k]? = some e := by
  rw [← List.getElem?_drop]
  exact getElem?_of_isPrefix h he

/-- The `k`-th entry of `es` meets an entry of its own term in `L`. -/
def Agrees (term : α → Nat) (L : List α) (p : Nat) (es : List α) (k : Nat) : Prop :=
  ∀ e, es[k]? = some e → ∃ e', L[p + 1 + k]? = some e' ∧ term e' = term e

/-- `Splice term L p es R`: writing `es` into `L` after position `p` gives `R`.
    Either every entry agrees with `L` and nothing changes, or everything from
    the first entry on that does not agree replaces the rest of `L`. -/
inductive Splice (term : α → Nat) (L : List α) (p : Nat) (es : List α) : List α → Prop
  | keep (hagree : ∀ k, Agrees term L p es k) : Splice term L p es L
  | write (k : Nat) (hk : k < es.length) (hlen : p + 1 + k ≤ L.length)
      (hagree : ∀ j < k, Agrees term L p es j) (hconflict : ¬ Agrees term L p es k) :
      Splice term L p es (L.take (p + 1 + k) ++ es.drop k)

/-- Splicing a section of `K` keeps every prefix that is compatible with `K`. -/
theorem Splice.keeps (h : Splice term L p es R) (hsec : Section K p es) {P : List α}
    (hP : P <+: L) (hPK : Compatible P K) : P <+: R := by
  cases h with
  | keep => exact hP
  | write k hk hlen hagree hconflict =>
    -- a prefix reaching the conflict would hold the entry of `K` there
    have hle : P.length ≤ p + 1 + k := by
      by_contra hlt
      have hlt : p + 1 + k < P.length := by omega
      apply hconflict
      intro e he
      have hPe := List.getElem?_eq_getElem hlt
      have heq := hPK.getElem? hPe (hsec.getElem? he)
      exact ⟨_, getElem?_of_isPrefix hP hPe, by rw [heq]⟩
    exact (List.prefix_take_iff.mpr ⟨hP, hle⟩).trans (List.prefix_append _ _)

/-- As far as the entries agree the two logs are equal. -/
theorem take_eq_of_agrees (hsec : Section K p es) (hmatch : Matching term L K)
    (htake : L.take (p + 1) = K.take (p + 1)) {k : Nat} (hk : k ≤ es.length)
    (hagree : ∀ j < k, Agrees term L p es j) : L.take (p + 1 + k) = K.take (p + 1 + k) := by
  cases k with
  | zero => exact htake
  | succ j =>
    have hj : es[j]? = some es[j] := List.getElem?_eq_getElem (by omega)
    obtain ⟨e', he', ht⟩ := hagree j (by omega) _ hj
    exact hmatch _ _ _ he' (hsec.getElem? hj) ht

/-- A log all of whose entries agree, and that ends with them, is a prefix. -/
theorem isPrefix_of_agrees (hsec : Section K p es) (hmatch : Matching term L K)
    (htake : L.take (p + 1) = K.take (p + 1)) (hagree : ∀ j, Agrees term L p es j)
    (hle : L.length ≤ p + 1 + es.length) : L <+: K := by
  have heq := take_eq_of_agrees hsec hmatch htake (Nat.le_refl _) fun j _ => hagree j
  rw [List.take_of_length_le hle] at heq
  rw [heq]
  exact List.take_prefix _ _

/-- Splicing a section of a matching log that agrees up to `p` turns the log into a
    prefix of the other log, or all entries agree and nothing changes. -/
theorem Splice.isPrefix_or_keep (h : Splice term L p es R) (hsec : Section K p es)
    (hmatch : Matching term L K) (htake : L.take (p + 1) = K.take (p + 1)) :
    (R <+: K ∧ R.length = p + 1 + es.length) ∨ (R = L ∧ ∀ k, Agrees term L p es k) := by
  cases h with
  | keep hagree => exact .inr ⟨rfl, hagree⟩
  | write k hk hlen hagree hconflict =>
    left
    have hpre := take_eq_of_agrees hsec hmatch htake hk.le hagree
    constructor
    · have hdrop : es.drop k <+: K.drop (p + 1 + k) := by
        rw [← List.drop_drop]
        exact List.IsPrefix.drop hsec k
      have := (List.prefix_append_right_inj (K.take (p + 1 + k))).mpr hdrop
      rwa [List.take_append_drop, ← hpre] at this
    · simp only [List.length_append, List.length_take, List.length_drop]
      omega

/-- Splicing everything that follows a common position brings the whole other log in. -/
theorem Splice.isPrefix_of_drop (h : Splice term L p (K.drop (p + 1)) R)
    (hmatch : Matching term L K) (htake : L.take (p + 1) = K.take (p + 1))
    (hp : p < K.length) : K <+: R := by
  have hsec : Section K p (K.drop (p + 1)) := List.prefix_refl _
  have hlen : p + 1 + (K.drop (p + 1)).length = K.length := by
    rw [List.length_drop]
    omega
  rcases h.isPrefix_or_keep hsec hmatch htake with ⟨hpre, heq⟩ | ⟨rfl, hagree⟩
  · rw [hpre.eq_of_length (heq.trans hlen)]
  · have heq := take_eq_of_agrees hsec hmatch htake (Nat.le_refl _) fun j _ => hagree j
    rw [hlen, List.take_length] at heq
    rw [← heq]
    exact List.take_prefix _ _

/-- Where all entries agree nothing changes. -/
theorem Splice.eq_of_agrees (h : Splice term L p es R) (hagree : ∀ k, Agrees term L p es k) :
    R = L := by
  cases h with
  | keep => rfl
  | write k hk hlen _ hconflict => exact absurd (hagree k) hconflict

/-- The entries of a section of `K` agree with a log that holds the last of them. -/
theorem Section.agrees (hsec : Section K p es) (hmatch : Matching term K L)
    (hsame : SameTermAt term K L (p + es.length)) (k : Nat) : Agrees term L p es k := by
  intro e he
  have hk := (List.getElem?_eq_some_iff.mp he).1
  obtain ⟨a, b, ha, hb, hab⟩ := sameTermAt_iff.mp
    (hsame.of_le hmatch (by omega : p + 1 + k ≤ p + es.length))
  obtain rfl := Option.some.inj (ha.symm.trans (hsec.getElem? he))
  exact ⟨b, hb, hab.symm⟩

/-- What splicing a section of a matching log does: the log that holds the last entry of the
    section stays, every other one becomes the prefix of `K` up to that entry. -/
theorem Splice.cases_last (h : Splice term L p es R) (hsec : Section K p es)
    (hmatch : Matching term K L) (htake : L.take (p + 1) = K.take (p + 1)) (hp : p < K.length) :
    (SameTermAt term K L (p + es.length) ∧ R = L) ∨
      (¬ SameTermAt term K L (p + es.length) ∧ R <+: K ∧ R.length = p + es.length + 1) := by
  by_cases hsame : SameTermAt term K L (p + es.length)
  · exact .inl ⟨hsame, h.eq_of_agrees fun k => hsec.agrees hmatch hsame k⟩
  · refine .inr ⟨hsame, ?_⟩
    rcases h.isPrefix_or_keep hsec hmatch.symm htake with ⟨hpre, hlen⟩ | ⟨-, hagree⟩
    · exact ⟨hpre, by omega⟩
    · -- entries that all agree end with one that agrees
      have heq := take_eq_of_agrees hsec hmatch.symm htake (Nat.le_refl _) fun j _ => hagree j
      have hlen : p + es.length < K.length := by
        have := List.IsPrefix.length_le hsec
        rw [List.length_drop] at this
        omega
      refine absurd (sameTermAt_of_take_eq ?_ hlen) hsame
      rw [show p + es.length + 1 = p + 1 + es.length by omega, heq]

/-- After the splice the two logs agree where they did and up to the end of the section. -/
theorem Splice.sameTermAt_iff (h : Splice term L p es R) (hsec : Section K p es)
    (hmatch : Matching term K L) (htake : L.take (p + 1) = K.take (p + 1)) (hp : p < K.length)
    (i : Nat) : SameTermAt term K R i ↔ SameTermAt term K L i ∨ i ≤ p + es.length := by
  rcases h.cases_last hsec hmatch htake hp with ⟨hsame, rfl⟩ | ⟨hdiff, hpre, hlen⟩
  · exact ⟨.inl, fun hi => hi.elim id fun hle => hsame.of_le hmatch hle⟩
  · have hiff : SameTermAt term K R i ↔ i ≤ p + es.length := by
      constructor
      · intro hi
        obtain ⟨_, b, -, hb, -⟩ := ReplicatedLog.sameTermAt_iff.mp hi
        have := (List.getElem?_eq_some_iff.mp hb).1
        omega
      · intro hle
        have hlt : i < R.length := by omega
        refine sameTermAt_of_take_eq ?_ (hlt.trans_le hpre.length_le)
        exact (take_eq_of_isPrefix hpre hlt).symm
    rw [hiff]
    refine ⟨.inr, fun hi => hi.elim (fun hsame => ?_) id⟩
    by_contra hlt
    exact hdiff (hsame.of_le hmatch (by omega))

/-- A splice leaves everything up to its position alone. -/
theorem Splice.take_eq (h : Splice term L p es R) : R.take (p + 1) = L.take (p + 1) := by
  cases h with
  | keep => rfl
  | write k hk hlen hagree hconflict =>
    rw [List.take_append_of_le_length (by rw [List.length_take]; omega), List.take_take,
      Nat.min_eq_left (by omega)]

/-- After a splice all entries agree. -/
theorem Splice.agrees (h : Splice term L p es R) (j : Nat) : Agrees term R p es j := by
  cases h with
  | keep hagree => exact hagree j
  | write k hk hlen hagree hconflict =>
    intro e he
    rcases Nat.lt_or_ge j k with hlt | hge
    · obtain ⟨e', he', hterm⟩ := hagree j hlt e he
      refine ⟨e', ?_, hterm⟩
      rw [List.getElem?_append_left (by rw [List.length_take]; omega),
        List.getElem?_take_of_lt (by omega), he']
    · refine ⟨e, ?_, rfl⟩
      rw [List.getElem?_append_right (by rw [List.length_take]; omega), List.length_take,
        Nat.min_eq_left hlen, List.getElem?_drop,
        show k + (p + 1 + j - (p + 1 + k)) = j by omega, he]

end Splice

end ReplicatedLog
