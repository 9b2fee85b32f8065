import Mathlib.Algebra.Ring.Nat

/-! Waiting with a back-off. The waits double up to a cap, and the last one is cut to what is
left; together they last as long as they are meant to. -/

namespace BackOff

variable (cap : Nat)

def double (x : Nat) : Nat := if x < cap then 2 * x else x

def waitsWithin : Nat → Nat → Nat → List Nat
  | 0, _, _ => []
  | fuel + 1, x, t =>
    if t = 0 then [] else min t x :: waitsWithin fuel (double cap x) (t - x)

/-- The waits that use up `t`, the first of them of `x`. -/
def waits (x t : Nat) : List Nat := waitsWithin cap t x t

variable {cap} {x t : Nat}

theorem double_pos (hx : 0 < x) : 0 < double cap x := by
  unfold double
  split <;> omega

theorem waitsWithin_zero (fuel x : Nat) : waitsWithin cap fuel x 0 = [] := by
  cases fuel <;> simp [waitsWithin]

theorem waitsWithin_congr (hx : 0 < x) {fuel fuel' : Nat} (h : t ≤ fuel) (h' : t ≤ fuel') :
    waitsWithin cap fuel x t = waitsWithin cap fuel' x t := by
  induction fuel generalizing fuel' x t with
  | zero =>
    have ht : t = 0 := by omega
    subst t
    rw [waitsWithin_zero, waitsWithin_zero]
  | succ fuel ih =>
    by_cases ht : t = 0
    · subst t
      rw [waitsWithin_zero, waitsWithin_zero]
    · cases fuel' with
      | zero => omega
      | succ fuel' =>
        have hrest : waitsWithin cap fuel (double cap x) (t - x) =
            waitsWithin cap fuel' (double cap x) (t - x) :=
          ih (double_pos hx) (by omega) (by omega)
        simp only [waitsWithin, ht, if_false, hrest]

theorem waits_of_pos (hx : 0 < x) (ht : 0 < t) :
    waits cap x t = min t x :: waits cap (double cap x) (t - x) := by
  obtain ⟨fuel, rfl⟩ := Nat.exists_eq_succ_of_ne_zero (by omega : t ≠ 0)
  have hne : ¬ fuel + 1 = 0 := by omega
  have hrest : waitsWithin cap fuel (double cap x) (fuel + 1 - x) =
      waitsWithin cap (fuel + 1 - x) (double cap x) (fuel + 1 - x) :=
    waitsWithin_congr (double_pos hx) (by omega) (Nat.le_refl _)
  simp only [waits, Nat.succ_eq_add_one, waitsWithin, hne, if_false, hrest]

theorem sum_waits (hx : 0 < x) (t : Nat) : (waits cap x t).sum = t := by
  induction t using Nat.strongRecOn generalizing x with
  | ind t ih =>
    by_cases ht : t = 0
    · subst t
      rfl
    · have hrest : (waits cap (double cap x) (t - x)).sum = t - x :=
        ih (t - x) (by omega) (double_pos hx)
      rw [waits_of_pos hx (by omega), List.sum_cons, hrest]
      omega

/-! How long waits last beside what was asked for. -/

/-- By how much waits end early. -/
def early (asked lasted : List Nat) : Nat := (List.zipWith (fun a l => a - l) asked lasted).sum

/-- By how much waits end late. -/
def late (asked lasted : List Nat) : Nat := (List.zipWith (fun a l => l - a) asked lasted).sum

theorem sum_add_late {asked lasted : List Nat} (h : asked.length ≤ lasted.length) :
    asked.sum + late asked lasted = (lasted.take asked.length).sum + early asked lasted := by
  induction asked generalizing lasted with
  | nil => simp [early, late]
  | cons a asked ih =>
    cases lasted with
    | nil => simp at h
    | cons l lasted =>
      have hrest := ih (Nat.le_of_succ_le_succ h)
      simp only [early, late, List.zipWith_cons_cons, List.sum_cons, List.length_cons,
        List.take_succ_cons] at hrest ⊢
      omega

end BackOff
