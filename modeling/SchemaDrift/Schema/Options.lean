/-!
Clauses kept by name: a finite map from texts to texts, in the order of its keys.
-/

namespace SchemaDrift

structure Options where
  entries : List (String × String)
  sorted : entries.Pairwise (fun a b => a.1 < b.1)
deriving DecidableEq

namespace Options

def empty : Options := ⟨[], .nil⟩

instance : Inhabited Options := ⟨empty⟩

def insertEntry (k v : String) : List (String × String) → List (String × String)
  | [] => [(k, v)]
  | e :: es =>
      if k < e.1 then (k, v) :: e :: es
      else if k = e.1 then (k, v) :: es
      else e :: insertEntry k v es

theorem key_of_mem_insertEntry {k v : String} {es : List (String × String)} {e : String × String}
    (h : e ∈ insertEntry k v es) : e.1 = k ∨ e ∈ es := by
  induction es with
  | nil => simp [insertEntry] at h; simp [h]
  | cons f fs ih =>
      simp only [insertEntry] at h
      split at h
      · rcases List.mem_cons.1 h with rfl | h
        · exact .inl rfl
        · exact .inr h
      split at h
      · rcases List.mem_cons.1 h with rfl | h
        · exact .inl rfl
        · exact .inr (List.mem_cons_of_mem _ h)
      · rcases List.mem_cons.1 h with rfl | h
        · exact .inr List.mem_cons_self
        · exact (ih h).imp_right (List.mem_cons_of_mem _)

theorem pairwise_insertEntry (k v : String) {es : List (String × String)}
    (h : es.Pairwise (fun a b => a.1 < b.1)) :
    (insertEntry k v es).Pairwise (fun a b => a.1 < b.1) := by
  induction es with
  | nil => simp [insertEntry]
  | cons e es ih =>
      rw [List.pairwise_cons] at h
      simp only [insertEntry]
      split
      · next hlt =>
          refine List.pairwise_cons.2 ⟨fun f hf => ?_, List.pairwise_cons.2 h⟩
          rcases List.mem_cons.1 hf with rfl | hf
          · exact hlt
          · exact String.lt_trans hlt (h.1 f hf)
      split
      · next heq =>
          exact List.pairwise_cons.2 ⟨fun f hf => heq ▸ h.1 f hf, h.2⟩
      · next hlt hne =>
          refine List.pairwise_cons.2 ⟨fun f hf => ?_, ih h.2⟩
          rcases key_of_mem_insertEntry hf with hk | hf
          · rw [hk]
            exact String.not_le.1 (fun hle => hne (String.le_antisymm hle (String.not_lt.1 hlt)))
          · exact h.1 f hf

/-- The value under a key already present is replaced. -/
def insert (o : Options) (k v : String) : Options :=
  ⟨insertEntry k v o.entries, pairwise_insertEntry k v o.sorted⟩

def get? (o : Options) (k : String) : Option String := o.entries.lookup k

def keys (o : Options) : List String := o.entries.map Prod.fst

end Options

end SchemaDrift
