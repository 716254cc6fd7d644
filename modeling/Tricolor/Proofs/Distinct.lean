import Mathlib.Data.List.Nodup

/-!
# Lists without repetitions

`eraseDups` keeps the first occurrence of every element, in order. This
is how a graph numbers its nodes and how colors are counted.
-/

namespace Tricolor

variable {α : Type}

theorem nodup_eraseDups [BEq α] [LawfulBEq α] (l : List α) : l.eraseDups.Nodup := by
  induction hn : l.length using Nat.strongRecOn generalizing l with
  | ind n ih =>
    cases l with
    | nil => exact List.nodup_nil
    | cons a l =>
      rw [List.eraseDups_cons, List.nodup_cons]
      refine ⟨fun h => ?_, ih _ ?_ _ rfl⟩
      · simp [List.mem_eraseDups] at h
      · have := List.length_filter_le (fun b => !b == a) l
        simp only [List.length_cons] at hn
        omega

variable [DecidableEq α]

theorem eraseDups_eq_self {l : List α} (h : l.Nodup) : l.eraseDups = l := by
  induction l with
  | nil => rfl
  | cons a l ih =>
    obtain ⟨ha, hl⟩ := List.nodup_cons.1 h
    have hfilter : l.filter (fun b => !b == a) = l := by
      rw [List.filter_eq_self]
      intro b hb
      simpa using fun hba : b = a => ha (hba ▸ hb)
    rw [List.eraseDups_cons, hfilter, ih hl]

/-- Appending to a list without repetitions adds what it lacks. -/
theorem eraseDups_append_of_nodup {l : List α} (h : l.Nodup) (m : List α) :
    (l ++ m).eraseDups = l ++ (m.filter (· ∉ l)).eraseDups := by
  rw [List.eraseDups_append, eraseDups_eq_self h]
  simp [List.removeAll]

/-- Repetitions may be dropped from the front before more is appended. -/
theorem eraseDups_append_left (l m : List α) :
    (l.eraseDups ++ m).eraseDups = (l ++ m).eraseDups := by
  rw [eraseDups_append_of_nodup (nodup_eraseDups l), List.eraseDups_append]
  simp [List.removeAll]

/-- The first element with a property is found without the repetitions
too. -/
theorem find?_eraseDups (p : α → Bool) (l : List α) : l.eraseDups.find? p = l.find? p := by
  induction hn : l.length using Nat.strongRecOn generalizing l with
  | ind n ih =>
    cases l with
    | nil => rfl
    | cons a l =>
      have hlt := List.length_filter_le (fun b => !b == a) l
      rw [List.length_cons] at hn
      rw [List.eraseDups_cons, List.find?_cons, List.find?_cons, ih _ (by omega) _ rfl,
        List.find?_filter]
      cases ha : p a with
      | true => rfl
      | false =>
        -- what is left out of the rest equals `a`
        refine congrArg (List.find? · l) (funext fun b => ?_)
        by_cases hb : b = a <;> simp [hb, ha]

/-- Repetitions stay repetitions if different elements stay different. -/
theorem eraseDups_map {β : Type} [DecidableEq β] {f : α → β} (hf : Function.Injective f)
    (l : List α) : (l.map f).eraseDups = l.eraseDups.map f := by
  induction hn : l.length using Nat.strongRecOn generalizing l with
  | ind n ih =>
    cases l with
    | nil => rfl
    | cons a l =>
      have hfilter : (l.map f).filter (fun b => !b == f a) =
          (l.filter fun b => !b == a).map f := by
        rw [List.filter_map]
        refine congrArg (List.map f) (List.filter_congr fun b _ => ?_)
        simp only [Function.comp, beq_eq_decide, hf.eq_iff]
      have hlt := List.length_filter_le (fun b => !b == a) l
      rw [List.length_cons] at hn
      rw [List.map_cons, List.eraseDups_cons, List.eraseDups_cons, List.map_cons, hfilter,
        ih _ (by omega) _ rfl]

end Tricolor
