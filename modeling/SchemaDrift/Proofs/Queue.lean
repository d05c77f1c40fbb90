import Mathlib.Data.Prod.Lex
import SchemaDrift.Plan.Order

namespace SchemaDrift.Schedule

def Rank.key (r : Rank) : ℕ ×ₗ ℕ ×ₗ ℕ := toLex (r.action, toLex (r.position, r.index))

theorem Rank.before_iff (a b : Rank) : a.before b = true ↔ a.key < b.key := by
  simp [Rank.before, Rank.key, Prod.Lex.toLex_lt_toLex]

theorem Rank.key_injective : Function.Injective Rank.key := by
  intro a b h
  cases a
  cases b
  simpa [Rank.key] using h

theorem least_le (r : Rank) (qs : List Rank) : ∀ q ∈ r :: qs, (least r qs).key ≤ q.key := by
  induction qs generalizing r with
  | nil => simp [least]
  | cons p ps ih =>
      intro q hq
      rw [least]
      by_cases hp : p.before r = true
      · have hpr := ((Rank.before_iff p r).1 hp).le
        rw [if_pos hp]
        rcases List.mem_cons.1 hq with rfl | hq
        · exact (ih p p List.mem_cons_self).trans hpr
        · exact ih p q hq
      · have hrp : r.key ≤ p.key := not_lt.1 (fun h => hp ((Rank.before_iff p r).2 h))
        rw [if_neg hp]
        simp only [List.mem_cons] at hq
        rcases hq with rfl | rfl | hq
        · exact ih q q List.mem_cons_self
        · exact (ih r r List.mem_cons_self).trans hrp
        · exact ih r q (List.mem_cons_of_mem _ hq)

@[simp]
theorem mem_enqueue {r q : Rank} {qs : List Rank} : q ∈ enqueue r qs ↔ q = r ∨ q ∈ qs := by
  induction qs with
  | nil => simp [enqueue]
  | cons p ps ih =>
      rw [enqueue]
      split
      · simp
      · simp only [List.mem_cons, ih]
        tauto

/-- The queue stays in strict order, since nothing enters it twice. -/
theorem pairwise_enqueue {r : Rank} {qs : List Rank} (h : qs.Pairwise (fun a b => a.key < b.key))
    (hr : r ∉ qs) : (enqueue r qs).Pairwise (fun a b => a.key < b.key) := by
  induction qs with
  | nil => simp [enqueue]
  | cons p ps ih =>
      obtain ⟨hp, hps⟩ := List.pairwise_cons.1 h
      obtain ⟨hne, hr⟩ := not_or.1 (mt List.mem_cons.2 hr)
      rw [enqueue]
      by_cases hb : r.before p = true
      · rw [if_pos hb, List.pairwise_cons]
        have hrp := (Rank.before_iff r p).1 hb
        refine ⟨fun q hq => ?_, h⟩
        rcases List.mem_cons.1 hq with rfl | hq
        · exact hrp
        · exact hrp.trans (hp q hq)
      · rw [if_neg hb, List.pairwise_cons]
        have hpr : p.key < r.key := by
          refine lt_of_le_of_ne (not_lt.1 (fun h => hb ((Rank.before_iff r p).2 h))) ?_
          exact fun he => hne (Rank.key_injective he).symm
        refine ⟨fun q hq => ?_, ih hps hr⟩
        rcases mem_enqueue.1 hq with rfl | hq
        · exact hpr
        · exact hp q hq

theorem mem_foldl_enqueue {q : Rank} (rs qs : List Rank) :
    q ∈ rs.foldl (fun qs r => enqueue r qs) qs ↔ q ∈ rs ∨ q ∈ qs := by
  induction rs generalizing qs with
  | nil => simp
  | cons r rs ih =>
      simp only [List.foldl_cons, ih, mem_enqueue, List.mem_cons]
      tauto

theorem pairwise_foldl_enqueue {rs qs : List Rank} (hrs : rs.Nodup) (hd : ∀ r ∈ rs, r ∉ qs)
    (hqs : qs.Pairwise (fun a b => a.key < b.key)) :
    (rs.foldl (fun qs r => enqueue r qs) qs).Pairwise (fun a b => a.key < b.key) := by
  induction rs generalizing qs with
  | nil => exact hqs
  | cons r rs ih =>
      obtain ⟨hr, hrs⟩ := List.nodup_cons.1 hrs
      refine ih hrs (fun p hp => ?_) (pairwise_enqueue hqs (hd r List.mem_cons_self))
      rw [mem_enqueue, not_or]
      refine ⟨?_, hd p (List.mem_cons_of_mem _ hp)⟩
      rintro rfl
      exact hr hp

end SchemaDrift.Schedule
