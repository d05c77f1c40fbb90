import Mathlib.Data.List.Nodup

namespace SchemaDrift.Lists

variable {α κ σ : Type} {key : α → κ} {l : List α}

theorem find?_eq_some_of_mem (hn : (l.map key).Nodup) {a : α} (ha : a ∈ l) {p : α → Bool}
    (hp : ∀ b ∈ l, p b = true ↔ key b = key a) : l.find? p = some a := by
  cases hf : l.find? p with
  | none =>
      have hna : p a = false := by simpa using List.find?_eq_none.1 hf a ha
      rw [(hp a ha).2 rfl] at hna
      cases hna
  | some b =>
      have hb := List.mem_of_find?_eq_some hf
      rw [List.inj_on_of_nodup_map hn hb ha ((hp b hb).1 (List.find?_some hf))]

theorem find?_key_eq_some_iff [DecidableEq κ] (hn : (l.map key).Nodup) {k : κ} {a : α} :
    l.find? (fun b => key b = k) = some a ↔ a ∈ l ∧ key a = k := by
  constructor
  · intro h
    exact ⟨List.mem_of_find?_eq_some h, by simpa using List.find?_some h⟩
  · rintro ⟨ha, rfl⟩
    exact find?_eq_some_of_mem hn ha (fun b _ => decide_eq_true_iff)

theorem find?_key_eq_none_iff [DecidableEq κ] {k : κ} :
    l.find? (fun b => key b = k) = none ↔ k ∉ l.map key := by
  simp [List.find?_eq_none]

/-- Looking items up by a key that need not tell them apart: each is like the one that it finds
if any two of one key are alike. -/
theorem forall_find?_key_iff [DecidableEq κ] {alike : α → α → Prop}
    (hsymm : ∀ {a b}, alike a b → alike b a)
    (htrans : ∀ {a b c}, alike a b → alike b c → alike a c) :
    (∀ a ∈ l, ∀ b, l.find? (fun c => key c = key a) = some b → alike a b) ↔
      ∀ a ∈ l, ∀ b ∈ l, key a = key b → alike a b := by
  constructor
  · intro h a ha b hb hk
    have hfound : (l.find? (fun c => key c = key b)).isSome :=
      List.find?_isSome.2 ⟨b, hb, decide_eq_true rfl⟩
    obtain ⟨c, hc⟩ := Option.isSome_iff_exists.1 hfound
    have hac := h a ha c (by rwa [hk])
    exact htrans hac (hsymm (h b hb c hc))
  · intro h a ha b hf
    have hk : key b = key a := by simpa using List.find?_some hf
    exact h a ha b (List.mem_of_find?_eq_some hf) hk.symm

theorem map_erase_of_mem [DecidableEq α] [DecidableEq κ] (hn : (l.map key).Nodup) {a : α}
    (ha : a ∈ l) : (l.erase a).map key = (l.map key).erase (key a) := by
  induction l with
  | nil => cases ha
  | cons b l ih =>
      obtain ⟨hb, hl⟩ := List.nodup_cons.1 hn
      by_cases he : b = a
      · subst he
        simp
      · have ha : a ∈ l := (List.mem_cons.1 ha).resolve_left (fun h => he h.symm)
        have hk : key b ≠ key a := fun h => hb (h ▸ List.mem_map_of_mem ha)
        rw [List.erase_cons_tail (by simpa using he), List.map_cons, ih hl ha, List.map_cons,
          List.erase_cons_tail (by simpa using hk)]

/-- What items under different keys give can be told apart by the key. -/
theorem filter_flatMap_key [DecidableEq κ] (hn : (l.map key).Nodup) (f : α → List σ)
    (keyOf : σ → κ) (hf : ∀ a ∈ l, ∀ s ∈ f a, keyOf s = key a) (k : κ) :
    (l.flatMap f).filter (fun s => keyOf s = k) =
      ((l.find? (fun a => key a = k)).map f).getD [] := by
  induction l with
  | nil => rfl
  | cons a l ih =>
      obtain ⟨ha, hl⟩ := List.nodup_cons.1 hn
      have hfa := hf a List.mem_cons_self
      rw [List.flatMap_cons, List.filter_append,
        ih hl (fun b hb => hf b (List.mem_cons_of_mem _ hb))]
      by_cases hk : key a = k
      · have hall : (f a).filter (fun s => keyOf s = k) = f a := by
          rw [List.filter_eq_self]
          intro s hs
          simp [hfa s hs, hk]
        have hnone : l.find? (fun b => key b = k) = none :=
          find?_key_eq_none_iff.2 (hk ▸ ha)
        simp [hall, hnone, hk]
      · have hnil : (f a).filter (fun s => keyOf s = k) = [] := by
          rw [List.filter_eq_nil_iff]
          intro s hs
          simp [hfa s hs, hk]
        simp [hnil, hk]

theorem nodup_of_nodup_filter_key [DecidableEq κ] (key : α → κ)
    (h : ∀ k, (l.filter (fun a => key a = k)).Nodup) : l.Nodup := by
  induction l with
  | nil => exact .nil
  | cons a l ih =>
      refine List.nodup_cons.2 ⟨fun ha => ?_, ih (fun k => ?_)⟩
      · have hk := h (key a)
        rw [List.filter_cons_of_pos (by simp), List.nodup_cons] at hk
        exact hk.1 (List.mem_filter.2 ⟨ha, by simp⟩)
      · exact (h k).sublist ((List.sublist_cons_self a l).filter _)

theorem eraseDups_concat [DecidableEq α] (l : List α) (a : α) :
    (l ++ [a]).eraseDups = if a ∈ l then l.eraseDups else l.eraseDups ++ [a] := by
  rw [List.eraseDups_append]
  split
  · next h => simp [List.removeAll, h]
  · next h => simp [List.removeAll, h, List.eraseDups_cons]

theorem eraseDups_append_of_subset [DecidableEq α] {xs ys : List α} (h : ys ⊆ xs) :
    (xs ++ ys).eraseDups = xs.eraseDups := by
  have hnone : ys.removeAll xs = [] := by
    rw [List.removeAll, List.filter_eq_nil_iff]
    intro y hy
    simpa using h hy
  rw [List.eraseDups_append, hnone, List.eraseDups_nil, List.append_nil]

theorem eraseDups_append_append [DecidableEq α] {xs ys : List α} (h : ys ⊆ xs) (zs : List α) :
    (xs ++ ys ++ (zs ++ zs)).eraseDups = (xs ++ zs).eraseDups := by
  have hsame : zs.removeAll (xs ++ ys) = zs.removeAll xs := by
    refine List.filter_congr fun z _ => ?_
    rw [List.elem_eq_mem, List.elem_eq_mem]
    congr 2
    rw [List.mem_append, or_iff_left_of_imp (fun hz => h hz)]
  rw [← List.append_assoc, eraseDups_append_of_subset (List.subset_append_right _ zs),
    List.eraseDups_append, eraseDups_append_of_subset h, hsame, ← List.eraseDups_append]

variable {x y z : α}

theorem pair_sublist_iff :
    [x, y].Sublist l ↔ ∃ before after, l = before ++ x :: after ∧ y ∈ after := by
  constructor
  · intro h
    obtain ⟨r, s, rfl, hx, hy⟩ := List.cons_sublist_iff.1 h
    obtain ⟨before, after, rfl⟩ := List.append_of_mem hx
    refine ⟨before, after ++ s, by simp, ?_⟩
    exact List.mem_append_right after (List.singleton_sublist.1 hy)
  · rintro ⟨before, after, rfl, hy⟩
    exact (List.Sublist.cons_cons x (List.singleton_sublist.2 hy)).trans
      (List.sublist_append_right before _)

theorem pair_sublist_trans (hn : l.Nodup) (hxy : [x, y].Sublist l) (hyz : [y, z].Sublist l) :
    [x, z].Sublist l := by
  obtain ⟨before, after, rfl, hy⟩ := pair_sublist_iff.1 hxy
  obtain ⟨first, second, hsplit, hz⟩ := pair_sublist_iff.1 hyz
  obtain ⟨middle, last, rfl⟩ := List.append_of_mem hy
  have hsplit : before ++ x :: middle ++ y :: last = first ++ y :: second := by simpa using hsplit
  have hn : (before ++ x :: middle ++ y :: last).Nodup := by simpa using hn
  obtain ⟨-, hlast, hfirst⟩ := List.nodup_append.1 hn
  have hnotfirst : y ∉ before ++ x :: middle := fun h => hfirst y h y List.mem_cons_self rfl
  obtain ⟨-, -, rfl⟩ :=
    (List.append_cons_inj_of_notMem hnotfirst (List.nodup_cons.1 hlast).1).1 hsplit
  exact pair_sublist_iff.2 ⟨before, _, rfl, by simp [hz]⟩

theorem pair_sublist_or (hx : x ∈ l) (hy : y ∈ l) (hne : x ≠ y) :
    [x, y].Sublist l ∨ [y, x].Sublist l := by
  obtain ⟨before, after, rfl⟩ := List.append_of_mem hx
  rcases List.mem_append.1 hy with hy | hy
  · obtain ⟨first, second, rfl⟩ := List.append_of_mem hy
    exact .inr (pair_sublist_iff.2 ⟨first, second ++ x :: after, by simp, by simp⟩)
  · have hy : y ∈ after := (List.mem_cons.1 hy).resolve_left hne.symm
    exact .inl (pair_sublist_iff.2 ⟨before, after, rfl, hy⟩)

theorem not_pair_sublist_swap (hn : l.Nodup) (h : [x, y].Sublist l) : ¬ [y, x].Sublist l :=
  fun hswap => List.nodup_iff_sublist.1 hn x (pair_sublist_trans hn h hswap)

end SchemaDrift.Lists
