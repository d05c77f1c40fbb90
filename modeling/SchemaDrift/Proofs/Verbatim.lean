import SchemaDrift.Grammar.Definition

namespace SchemaDrift

def verbatimLabels : List String := ["COMMENT ", "INLINE LENGTH ", "PARTITIONS "]

def verbatim? (clause : String) : Option (String × List Char) :=
  (verbatimLabels.find? (fun label => Text.startsWith clause.toList label.toList)).map
    (fun label => (label, clause.toList.drop label.toList.length))

def isLiteralText (d : Dialect) (s : List Char) : Bool :=
  s.isEmpty || match Token.lex d s with
    | [t] => Grammar.isLiteral t && t.text == s
    | _ => false

def isPlainClause (d : Dialect) (clause : String) : Bool :=
  (verbatim? clause).all (fun v => isLiteralText d v.2)

def settledClause (d : Dialect) (clause : String) : String :=
  match verbatim? clause with
  | some (label, value) => label ++ canonicalSql d value
  | none => clause

theorem verbatim?_append {label : String} (hlabel : label ∈ verbatimLabels) (s : List Char) :
    verbatim? (label ++ String.ofList s) = some (label, s) := by
  simp only [verbatimLabels, List.mem_cons, List.not_mem_nil, or_false] at hlabel
  rcases hlabel with rfl | rfl | rfl <;>
    simp [verbatim?, verbatimLabels, Text.startsWith, List.isPrefixOf]

theorem eq_of_verbatim? {clause label : String} {s : List Char}
    (h : verbatim? clause = some (label, s)) : clause = label ++ String.ofList s := by
  obtain ⟨found, hfind, hfound⟩ := Option.map_eq_some_iff.1 h
  obtain ⟨rfl, rfl⟩ := Prod.mk.inj hfound
  have hstarts := List.find?_some hfind
  rw [Text.startsWith] at hstarts
  obtain ⟨rest, hrest⟩ := List.isPrefixOf_iff_prefix.1 hstarts
  rw [← hrest, List.drop_left, String.ext_iff, String.toList_append, String.toList_ofList, hrest]

theorem settledClause_append {d : Dialect} {label : String} (hlabel : label ∈ verbatimLabels)
    (s : List Char) :
    settledClause d (label ++ String.ofList s) = label ++ canonicalSql d s := by
  rw [settledClause, verbatim?_append hlabel]

theorem canonicalSql_of_literal {d : Dialect} {s : List Char} (h : isLiteralText d s = true) :
    canonicalSql d s = String.ofList s := by
  unfold isLiteralText at h
  rcases Bool.or_eq_true_iff.1 h with h | h
  · rw [List.isEmpty_iff.1 h, canonicalSql, Token.canonical, Token.lex, Token.lexFrom, Token.render]
  · split at h
    · next t hlex =>
        rw [Bool.and_eq_true, beq_iff_eq] at h
        have hword : t.isWord = false := by
          rcases Bool.or_eq_true_iff.1 h.1 with hkind | hkind <;>
            rw [Token.isWord, beq_iff_eq.1 hkind] <;> rfl
        rw [canonicalSql, Token.canonical, hlex, Token.render, Token.renderAfter, List.append_nil,
          Token.piece, hword, if_neg Bool.false_ne_true, h.2]
    · cases h

theorem settledClause_of_plain {d : Dialect} {clause : String} (h : isPlainClause d clause = true) :
    settledClause d clause = clause := by
  unfold settledClause
  split
  · next label s hv =>
      rw [isPlainClause, hv, Option.all_some] at h
      rw [canonicalSql_of_literal h, ← eq_of_verbatim? hv]
  · rfl

def Column.settled (d : Dialect) (c : Column) : Column :=
  { c.unspelled with attributes := c.attributes.map (settledClause d) }

def Partition.settled (d : Dialect) (p : Partition) : Partition :=
  { p with parts := p.parts.map (settledClause d) }

def Storage.settled (d : Dialect) (s : Storage) : Storage :=
  { s with partition := s.partition.map (Partition.settled d) }

def Table.settled (d : Dialect) (t : Table) : Table :=
  { t with columns := t.columns.map (Column.settled d), storage := t.storage.settled d }

/-- The relations that a view names are found in its text, comments included. -/
def Object.settled (d : Dialect) : Object → Object
  | .table t => .table (t.settled d)
  | .view v => .view { v with references := [] }
  | o => o

def TableChange.settled (d : Dialect) : TableChange → TableChange
  | .addColumn c => .addColumn (c.settled d)
  | .addConstraint c => .addConstraint c

def Definition.settled (d : Dialect) : Definition → Definition
  | .object o => .object (o.settled d)
  | .change name changes raw => .change name (changes.map (TableChange.settled d)) raw

def Column.isPlain (d : Dialect) (c : Column) : Bool := c.attributes.all (isPlainClause d)

def Table.isPlain (d : Dialect) (t : Table) : Bool :=
  t.columns.all (Column.isPlain d) &&
    t.storage.partition.all (fun p => p.parts.all (isPlainClause d))

theorem map_settledClause {d : Dialect} {clauses : List String}
    (h : clauses.all (isPlainClause d) = true) : clauses.map (settledClause d) = clauses :=
  (List.map_congr_left fun _ hc => settledClause_of_plain (List.all_eq_true.1 h _ hc)).trans
    (List.map_id' clauses)

theorem Column.settled_of_isPlain {d : Dialect} {c : Column} (h : c.isPlain d = true) :
    c.settled d = c.unspelled := by
  rw [settled, map_settledClause h]
  rfl

theorem Table.settled_of_isPlain {d : Dialect} {t : Table} (h : t.isPlain d = true) :
    t.settled d = t.unspelled := by
  obtain ⟨hcolumns, hparts⟩ := Bool.and_eq_true_iff.1 h
  have hsettled : t.columns.map (Column.settled d) = t.columns.map Column.unspelled :=
    List.map_congr_left (fun c hc => Column.settled_of_isPlain (List.all_eq_true.1 hcolumns c hc))
  have hpartition : t.storage.settled d = t.storage := by
    unfold Storage.settled
    cases hp : t.storage.partition with
    | none => rw [Option.map_none, ← hp]
    | some p =>
        rw [hp] at hparts
        rw [Option.map_some, Partition.settled, map_settledClause hparts, ← hp]
  rw [settled, hsettled, hpartition]
  rfl

end SchemaDrift
