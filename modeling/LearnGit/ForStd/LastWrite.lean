import Mathlib.Data.List.Basic

/-!
# Commands that overwrite

A command overwrites when what it leaves at a key is either what was there or a value of
its own, whatever was there. Then only the last command that writes a key counts for it,
and running commands once more before a list that writes all their keys makes no difference.

## Key results

- `Overwrites.read_foldl`: the last write of a list of commands decides each key
- `Overwrites.absorbs`: commands whose keys are all written again leave no trace
- `Overwrites.replay`: a list of commands absorbs each of its prefixes
-/

namespace LastWrite

variable {σ κ υ ι : Type*}

/-- `write c k` is the value that the command `c` writes at `k`, if it does. -/
def Overwrites (read : σ → κ → υ) (run : σ → ι → σ) (write : ι → κ → Option υ) : Prop :=
  ∀ s c k, read (run s c) k = (write c k).getD (read s k)

/-- The last value that the commands write at `k`. -/
def lastWrite (write : ι → κ → Option υ) (cs : List ι) (k : κ) : Option υ :=
  cs.reverse.findSome? (write · k)

section Write

variable {write : ι → κ → Option υ} {k : κ}

@[simp] theorem lastWrite_nil : lastWrite write [] k = none := rfl

theorem lastWrite_cons (c : ι) (cs : List ι) :
    lastWrite write (c :: cs) k = (lastWrite write cs k).or (write c k) := by
  simp [lastWrite, List.findSome?_append]

/-- A key is written by a list if one of its commands writes it. -/
theorem isSome_lastWrite {cs : List ι} :
    (lastWrite write cs k).isSome ↔ ∃ c ∈ cs, (write c k).isSome := by
  simp [lastWrite, List.findSome?_isSome_iff]

end Write

namespace Overwrites

variable {read : σ → κ → υ} {run : σ → ι → σ} {write : ι → κ → Option υ}

/-- The last write of a list of commands decides each key. -/
theorem read_foldl (hover : Overwrites read run write) (cs : List ι) (s : σ) (k : κ) :
    read (cs.foldl run s) k = (lastWrite write cs k).getD (read s k) := by
  induction cs generalizing s with
  | nil => rfl
  | cons c cs ih =>
    rw [List.foldl_cons, ih, hover, lastWrite_cons]
    cases lastWrite write cs k with
    | none => rfl
    | some v => rfl

/-- Commands leave no trace under a list that writes all of their keys. -/
theorem absorbs (hover : Overwrites read run write)
    (hext : ∀ s s', (∀ k, read s k = read s' k) → s = s') {cs cs' : List ι}
    (hkeys : ∀ k, (lastWrite write cs' k).isSome → (lastWrite write cs k).isSome) (s : σ) :
    cs.foldl run (cs'.foldl run s) = cs.foldl run s := by
  apply hext
  intro k
  rw [hover.read_foldl, hover.read_foldl, hover.read_foldl]
  cases hlast : lastWrite write cs k with
  | some v => rfl
  | none =>
    -- the list leaves the key alone, and so do the commands before it
    cases hlast' : lastWrite write cs' k with
    | none => rfl
    | some v =>
      have hsome := hkeys k (by rw [hlast']; rfl)
      rw [hlast] at hsome
      exact nomatch hsome

/-- Running a list of commands again from the start, on top of a part of it. -/
theorem replay (hover : Overwrites read run write)
    (hext : ∀ s s', (∀ k, read s k = read s' k) → s = s') (cs : List ι) (n : Nat) (s : σ) :
    cs.foldl run ((cs.take n).foldl run s) = cs.foldl run s := by
  apply hover.absorbs hext
  intro k hk
  obtain ⟨c, hc, hwrite⟩ := isSome_lastWrite.mp hk
  exact isSome_lastWrite.mpr ⟨c, List.mem_of_mem_take hc, hwrite⟩

end Overwrites

end LastWrite
