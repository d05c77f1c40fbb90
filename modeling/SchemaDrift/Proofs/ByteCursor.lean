import SchemaDrift.Proofs.Alike
import SchemaDrift.Proofs.ByteTokens
import SchemaDrift.Proofs.Extents

namespace SchemaDrift

namespace Bytes

open Text

namespace Extent

def read? (text : List Char) (e : Extent) : Option Token :=
  (slice? text e.start e.stop).map (Token.mk e.kind [])

structure Reads (text : List Char) (t : Token) (e : Extent) : Prop where
  kind_eq : e.kind = t.kind
  slice_eq : slice? text e.start e.stop = some t.text

variable {text : List Char} {t : Token} {e : Extent}

theorem Reads.read?_eq (h : e.Reads text t) : e.read? text = some { t with gap := [] } := by
  rw [read?, h.slice_eq, h.kind_eq]
  rfl

end Extent

def Along (text : List Char) (es : List Extent) (ts : List Token) : Prop :=
  ∃ u v, text = u ++ (ts.flatMap (fun t => t.gap ++ t.text) ++ v) ∧ es = extents (byteSize u) ts

variable {text : List Char} {es : List Extent} {t : Token} {ts us vs : List Token}

theorem length_extents (i : Nat) (ts : List Token) : (extents i ts).length = ts.length := by
  induction ts generalizing i with
  | nil => rfl
  | cons t ts ih => rw [extents, List.length_cons, List.length_cons, ih]

theorem extents_append (i : Nat) (us vs : List Token) :
    extents i (us ++ vs) =
      extents i us ++ extents (i + byteSize (us.flatMap (fun t => t.gap ++ t.text))) vs := by
  induction us generalizing i with
  | nil => rfl
  | cons u us ih =>
      rw [List.cons_append, extents, extents, ih, List.flatMap_cons, byteSize_append,
        byteSize_append, ← Nat.add_assoc, ← Nat.add_assoc]
      rfl

namespace Along

theorem of_lex? (d : Dialect) (h : lex? d text = some es) : Along text es (Token.lex d text) := by
  refine ⟨[], (Token.lexFrom d none [] text).2, ?_, ?_⟩
  · exact (Token.lexFrom_append d none [] text).symm
  · rw [lex?_eq] at h
    exact (Option.some.inj h).symm

theorem length_eq (h : Along text es ts) : es.length = ts.length := by
  obtain ⟨u, v, -, rfl⟩ := h
  exact length_extents _ ts

theorem append (h : Along text es (us ++ vs)) :
    Along text (es.take us.length) us ∧ Along text (es.drop us.length) vs := by
  obtain ⟨u, v, htext, rfl⟩ := h
  have hlen := length_extents (byteSize u) us
  rw [List.flatMap_append, List.append_assoc] at htext
  rw [extents_append]
  refine ⟨⟨u, _, htext, List.take_left' hlen⟩,
    ⟨u ++ us.flatMap (fun t => t.gap ++ t.text), v, ?_, ?_⟩⟩
  · rw [htext, List.append_assoc]
  · rw [List.drop_left' hlen, byteSize_append]

theorem take (h : Along text es ts) (n : Nat) : Along text (es.take n) (ts.take n) := by
  rcases Nat.le_total n ts.length with hn | hn
  · have happend := h
    rw [← List.take_append_drop n ts] at happend
    have htake := happend.append.1
    rwa [List.length_take_of_le hn] at htake
  · rwa [List.take_of_length_le hn, List.take_of_length_le (h.length_eq ▸ hn)]

theorem drop (h : Along text es ts) (n : Nat) : Along text (es.drop n) (ts.drop n) := by
  rcases Nat.le_total n ts.length with hn | hn
  · have happend := h
    rw [← List.take_append_drop n ts] at happend
    have hdrop := happend.append.2
    rwa [List.length_take_of_le hn] at hdrop
  · rw [List.drop_of_length_le hn, List.drop_of_length_le (h.length_eq ▸ hn)]
    obtain ⟨u, v, htext, -⟩ := h
    exact ⟨text, [], (List.append_nil text).symm, rfl⟩

theorem exists_cons (h : Along text es (t :: ts)) :
    ∃ e es', es = e :: es' ∧ e.Reads text t ∧ Along text es' ts := by
  have htail := h.drop 1
  obtain ⟨u, v, htext, rfl⟩ := h
  refine ⟨_, _, rfl, ⟨rfl, slice?_eq_some_iff.2 ⟨u ++ t.gap, ?_⟩⟩, htail⟩
  refine ⟨ts.flatMap (fun t => t.gap ++ t.text) ++ v, ?_, byteSize_append _ _, rfl⟩
  rw [htext, List.flatMap_cons]
  simp only [List.append_assoc]

theorem slices (h : Along text es ts) :
    es.map (fun e => slice? text e.start e.stop) = ts.map (fun t => some t.text) := by
  induction ts generalizing es with
  | nil =>
      rw [List.length_eq_zero_iff.1 h.length_eq]
      rfl
  | cons t ts ih =>
      obtain ⟨e, es, rfl, he, hes⟩ := h.exists_cons
      rw [List.map_cons, List.map_cons, he.slice_eq, ih hes]

theorem stop_getLast? {i : Nat} {last : Extent}
    (h : (extents i (t :: ts)).getLast? = some last) :
    last.stop = i + byteSize ((t :: ts).flatMap (fun t => t.gap ++ t.text)) := by
  induction ts generalizing i t with
  | nil =>
      cases h
      rw [List.flatMap_cons, List.flatMap_nil, List.append_nil, byteSize_append, ← Nat.add_assoc]
      rfl
  | cons t' ts ih =>
      have htail : (extents (i + byteSize t.gap + byteSize t.text) (t' :: ts)).getLast? =
          some last := h
      rw [ih htail, List.flatMap_cons (x := t), byteSize_append, byteSize_append, Nat.add_assoc,
        Nat.add_assoc, Nat.add_assoc]

/-- A run of tokens is sliced from the start of its first to the end of its last. -/
theorem span (h : Along text es ts) {first last : Extent} (hfirst : es.head? = some first)
    (hlast : es.getLast? = some last) :
    slice? text first.start last.stop = some (Token.span ts) := by
  obtain ⟨u, v, htext, rfl⟩ := h
  cases ts with
  | nil => cases hfirst
  | cons t ts =>
      cases hfirst
      refine slice?_eq_some_iff.2 ⟨u ++ t.gap, v, ?_, byteSize_append _ _, ?_⟩
      · rw [htext, List.flatMap_cons, Token.span]
        simp only [List.append_assoc]
      · rw [stop_getLast? hlast, Token.span, List.flatMap_cons]
        simp only [byteSize_append, Nat.add_assoc]

end Along

structure Cursor where
  tokens : List Extent
  pos : Nat

def closeFrom? (text : List Char) : Nat → Nat → List Extent → Option (Option Nat)
  | _, _, [] => some none
  | depth, i, e :: es =>
      (e.read? text).bind fun t =>
        if t.isSymbol "(" then closeFrom? text (depth + 1) (i + 1) es
        else if t.isSymbol ")" then
          if depth = 0 then none
          else if depth - 1 = 0 then some (some i)
          else closeFrom? text (depth - 1) (i + 1) es
        else closeFrom? text depth (i + 1) es

namespace Cursor

def sub? (c : Cursor) (a b : Nat) : Option Cursor := (cut? c.tokens a b).map (⟨·, 0⟩)

def atSymbol? (text : List Char) (c : Cursor) (s : String) : Option Bool :=
  match c.tokens[c.pos]? with
  | none => some false
  | some e => (e.read? text).map (·.isSymbol s)

def group? (text : List Char) (c : Cursor) : Option (Option Cursor × Cursor) :=
  (c.atSymbol? text "(").bind fun opens =>
    if opens then
      (closeFrom? text 0 c.pos (c.tokens.drop c.pos)).bind fun found =>
        let close := found.getD c.tokens.length
        (c.sub? (c.pos + 1) close).map fun inner =>
          (some inner, { c with pos := min (close + 1) c.tokens.length })
    else some (none, c)

def partsFrom? (text : List Char) (c : Cursor) (start : Nat) : Nat → Int → List Extent →
    Option (List Cursor)
  | _, _, [] =>
      if start < c.tokens.length then (c.sub? start c.tokens.length).map ([·]) else some []
  | i, depth, e :: es =>
      (e.read? text).bind fun t =>
        if t.isSymbol "(" || t.isSymbol "[" then partsFrom? text c start (i + 1) (depth + 1) es
        else if t.isSymbol ")" || t.isSymbol "]" then
          partsFrom? text c start (i + 1) (depth - 1) es
        else if t.isSymbol "," && depth == 0 then
          (c.sub? start i).bind fun part =>
            (partsFrom? text c (i + 1) (i + 1) depth es).map (part :: ·)
        else partsFrom? text c start (i + 1) depth es

def splitCommas? (text : List Char) (c : Cursor) : Option (List Cursor) :=
  c.partsFrom? text c.pos c.pos 0 (c.tokens.drop c.pos)

def textBetween? (text : List Char) (c : Cursor) (a b : Nat) : Option (List Char) :=
  if b ≤ a ∨ c.tokens.length ≤ a then some []
  else c.tokens[a]?.bind fun first => c.tokens[b - 1]?.bind fun last =>
    slice? text first.start last.stop

end Cursor

/-- The group is closed by the first token that `groupFrom` does not take, if there is one. -/
theorem closeFrom?_eq (h : Along text es ts) {depth : Nat} (hdepth : 1 ≤ depth) (i : Nat) :
    closeFrom? text depth i es =
      some (if (Token.groupFrom depth ts).1.length < ts.length
        then some (i + (Token.groupFrom depth ts).1.length) else none) := by
  induction ts generalizing es depth i with
  | nil =>
      obtain rfl := List.length_eq_zero_iff.1 h.length_eq
      rfl
  | cons t ts ih =>
      obtain ⟨e, es, rfl, he, hes⟩ := h.exists_cons
      have hnext {n : Nat} : (if n + 1 < ts.length + 1 then some (i + (n + 1)) else none) =
          if n < ts.length then some (i + 1 + n) else none := by
        simp only [Nat.add_lt_add_iff_right, Nat.add_assoc, Nat.add_comm 1]
      have hungapped (s : String) : ({ t with gap := [] } : Token).isSymbol s = t.isSymbol s := rfl
      rw [closeFrom?, he.read?_eq, Option.bind_some, hungapped, hungapped, Token.groupFrom]
      by_cases hopens : t.isSymbol "(" = true
      · rw [if_pos hopens, if_pos hopens,
          if_neg (Bool.eq_false_iff.1 (Token.not_isSymbol_of_ne hopens (by decide))),
          ih hes (Nat.le_add_left 1 depth)]
        exact congrArg some hnext.symm
      rw [if_neg hopens, if_neg hopens]
      by_cases hcloses : t.isSymbol ")" = true
      · rw [if_pos hcloses, if_pos hcloses, if_neg (Nat.ne_of_gt hdepth)]
        by_cases hlast : depth ≤ 1
        · rw [if_pos hlast, if_pos (by omega)]
          exact congrArg some (if_pos (Nat.zero_lt_succ _)).symm
        · rw [if_neg hlast, if_neg (by omega), ih hes (by omega)]
          exact congrArg some hnext.symm
      · rw [if_neg hcloses, if_neg hcloses, ih hes hdepth]
        exact congrArg some hnext.symm

namespace Cursor

structure At (text : List Char) (c : Cursor) (us ts : List Token) : Prop where
  along : Along text c.tokens (us ++ ts)
  pos_eq : c.pos = us.length

variable {c : Cursor}

theorem At.ahead (h : c.At text us ts) : Along text (c.tokens.drop c.pos) ts := by
  rw [h.pos_eq]
  exact h.along.append.2

theorem At.length_eq (h : c.At text us ts) : c.tokens.length = us.length + ts.length := by
  rw [h.along.length_eq, List.length_append]

/-- Any run of the tokens can be taken out. -/
theorem sub?_eq {run : List Token} (h : Along text c.tokens (us ++ (run ++ vs))) :
    ∃ inner, c.sub? us.length (us.length + run.length) = some inner ∧
      inner.At text [] run := by
  have hlen := h.length_eq
  rw [List.length_append, List.length_append] at hlen
  refine ⟨_, by rw [sub?, cut?, if_pos ⟨by omega, by omega⟩, Option.map_some], ?_, rfl⟩
  rw [Nat.add_sub_cancel_left]
  exact h.append.2.append.1

theorem At.atSymbol?_eq (h : c.At text us ts) (s : String) :
    c.atSymbol? text s = some (Reader.atSymbol s ts) := by
  have hhead : c.tokens[c.pos]? = (c.tokens.drop c.pos).head? := by
    rw [List.head?_drop]
  rw [atSymbol?, hhead]
  cases ts with
  | nil =>
      rw [List.length_eq_zero_iff.1 h.ahead.length_eq]
      rfl
  | cons t ts =>
      obtain ⟨e, es, hes, he, -⟩ := h.ahead.exists_cons
      rw [hes]
      exact congrArg (Option.map (·.isSymbol s)) he.read?_eq

theorem At.group?_of_not (h : c.At text us ts) (hopens : Reader.atSymbol "(" ts = false) :
    c.group? text = some (none, c) := by
  rw [group?, h.atSymbol?_eq, hopens]
  rfl

theorem snd_groupFrom (depth : Nat) (ts : List Token) :
    (Token.groupFrom depth ts).2 = ts.drop ((Token.groupFrom depth ts).1.length + 1) := by
  induction ts generalizing depth with
  | nil => rfl
  | cons t ts ih =>
      rw [Token.groupFrom]
      split
      · split
        · rfl
        · exact ih _
      · exact ih _

theorem drop_groupFrom (us : List Token) (t : Token) (ts : List Token) :
    (us ++ t :: ts).drop (us.length + 1 + (Token.groupFrom 1 ts).1.length + 1) =
      (Token.groupFrom 1 ts).2 := by
  have hsplit : us.length + 1 + (Token.groupFrom 1 ts).1.length + 1 =
      (us ++ [t]).length + ((Token.groupFrom 1 ts).1.length + 1) := by
    rw [List.length_append, List.length_singleton, Nat.add_assoc (us.length + 1)]
  rw [hsplit, List.append_cons us t ts, List.drop_length_add_append, ← snd_groupFrom]

/-- The closing parenthesis that a group is looked for up to, or the end where there is none. -/
theorem At.closeFrom?_getD (h : c.At text us (t :: ts)) (hopens : t.isSymbol "(" = true) :
    (closeFrom? text 0 c.pos (c.tokens.drop c.pos)).map (fun close => close.getD c.tokens.length) =
      some (us.length + 1 + (Token.groupFrom 1 ts).1.length) := by
  obtain ⟨e, es, hes, he, hahead⟩ := h.ahead.exists_cons
  have hungapped : ({ t with gap := [] } : Token).isSymbol "(" = true := hopens
  have hlen := h.length_eq
  rw [List.length_cons] at hlen
  have hle := (Token.groupFrom_prefix 1 ts).length_le
  rw [hes, closeFrom?, he.read?_eq, Option.bind_some, if_pos hungapped,
    closeFrom?_eq hahead (Nat.le_refl _), Option.map_some, h.pos_eq]
  split
  · rfl
  · rw [Option.getD_none]
    exact congrArg some (by omega)

/-- A group is the one that the reader takes, and no count goes below zero on the way. -/
theorem At.group?_eq (h : c.At text us (t :: ts)) (hopens : t.isSymbol "(" = true) :
    ∃ inner after us', c.group? text = some (some inner, after) ∧
      inner.At text [] (Token.groupFrom 1 ts).1 ∧
      after.At text us' (Token.groupFrom 1 ts).2 := by
  obtain ⟨close, hclose, hfound⟩ := Option.map_eq_some_iff.1 (h.closeFrom?_getD hopens)
  obtain ⟨rest, hrest⟩ := Token.groupFrom_prefix 1 ts
  have hrun : us ++ t :: ts = us ++ [t] ++ ((Token.groupFrom 1 ts).1 ++ rest) := by
    rw [hrest, List.append_assoc, List.singleton_append]
  obtain ⟨inner, hsub, hinner⟩ := sub?_eq (hrun ▸ h.along)
  rw [List.length_append, List.length_singleton] at hsub
  have hpos : min (us.length + 1 + (Token.groupFrom 1 ts).1.length + 1) c.tokens.length ≤
      (us ++ t :: ts).length := by
    rw [h.along.length_eq]
    exact Nat.min_le_right _ _
  have hdrop : (us ++ t :: ts).drop
      (min (us.length + 1 + (Token.groupFrom 1 ts).1.length + 1) c.tokens.length) =
        (Token.groupFrom 1 ts).2 := by
    rw [← drop_groupFrom us t ts]
    rcases Nat.le_total (us.length + 1 + (Token.groupFrom 1 ts).1.length + 1) c.tokens.length
      with hm | hm
    · rw [Nat.min_eq_left hm]
    · rw [Nat.min_eq_right hm, List.drop_of_length_le (Nat.le_of_eq h.along.length_eq.symm),
        List.drop_of_length_le (Nat.le_trans (Nat.le_of_eq h.along.length_eq.symm) hm)]
  refine ⟨inner, ⟨c.tokens, _⟩, (us ++ t :: ts).take _, ?_, hinner,
    ⟨?_, (List.length_take_of_le hpos).symm⟩⟩
  · have hat : Reader.atSymbol "(" (t :: ts) = true := hopens
    rw [group?, h.atSymbol?_eq, Option.bind_some, hat, if_pos rfl, hclose, Option.bind_some]
    dsimp only
    rw [hfound, h.pos_eq, hsub, Option.map_some]
  · rw [← hdrop, List.take_append_drop]
    exact h.along

/-- At the end, what was passed since the last comma is a part, if there is any of it. -/
theorem partsFrom?_nil {part : List Token} (h : Along text c.tokens (us ++ part)) (depth : Int) :
    ∃ parts, c.partsFrom? text us.length (us ++ part).length depth [] = some parts ∧
      List.Forall₂ (fun inner run => inner.At text [] run) parts
        (Token.splitCommasFrom depth part.reverse []) := by
  rw [partsFrom?, h.length_eq, Token.splitCommasFrom, List.isEmpty_reverse]
  cases part with
  | nil =>
      rw [List.append_nil, if_neg (Nat.lt_irrefl _)]
      exact ⟨[], rfl, .nil⟩
  | cons u part =>
      have hrun : us ++ u :: part = us ++ (u :: part ++ []) := by rw [List.append_nil]
      obtain ⟨inner, hsub, hinner⟩ := sub?_eq (hrun ▸ h)
      rw [← List.length_append] at hsub
      rw [if_pos (by rw [List.length_append, List.length_cons]; omega), hsub]
      refine ⟨[inner], rfl, .cons ?_ .nil⟩
      rwa [List.reverse_reverse]

/-- A token that is a bracket separates nothing. -/
theorem not_comma_of_isSymbol {a b : String} (hab : (t.isSymbol a || t.isSymbol b) = true)
    (ha : a.toList ≠ ",".toList) (hb : b.toList ≠ ",".toList) (depth : Int) :
    ¬ (t.isSymbol "," && depth == 0) = true := by
  rw [Bool.or_eq_true] at hab
  rcases hab with hab | hab
  · rw [Token.not_isSymbol_of_ne hab ha, Bool.false_and]
    exact Bool.false_ne_true
  · rw [Token.not_isSymbol_of_ne hab hb, Bool.false_and]
    exact Bool.false_ne_true

theorem partsFrom?_eq {part : List Token} (h : Along text c.tokens (us ++ (part ++ ts)))
    (depth : Int) :
    ∃ parts, c.partsFrom? text us.length (us ++ part).length depth
        (c.tokens.drop (us ++ part).length) = some parts ∧
      List.Forall₂ (fun inner run => inner.At text [] run) parts
        (Token.splitCommasFrom depth part.reverse ts) := by
  induction ts generalizing us part depth with
  | nil =>
      rw [List.append_nil] at h
      rw [List.drop_of_length_le (Nat.le_of_eq h.length_eq)]
      exact partsFrom?_nil h depth
  | cons t ts ih =>
      have hassoc : us ++ (part ++ t :: ts) = us ++ part ++ t :: ts := (List.append_assoc ..).symm
      obtain ⟨e, es, hes, he, -⟩ := (hassoc ▸ h).append.2.exists_cons
      have hlen : (us ++ part).length + 1 = (us ++ (part ++ [t])).length := by
        simp only [List.length_append, List.length_singleton, Nat.add_assoc]
      have htail : es = c.tokens.drop (us ++ (part ++ [t])).length := by
        rw [← hlen, ← List.drop_drop, hes]
        rfl
      have hon (depth : Int) :
          ∃ parts, c.partsFrom? text us.length ((us ++ part).length + 1) depth es = some parts ∧
            List.Forall₂ (fun inner run => inner.At text [] run) parts
              (Token.splitCommasFrom depth (t :: part.reverse) ts) := by
        have halong : Along text c.tokens (us ++ ((part ++ [t]) ++ ts)) := by simpa using h
        have hgoal := ih halong depth
        rwa [← htail, ← hlen, List.reverse_append, List.reverse_singleton,
          List.singleton_append] at hgoal
      have hungapped (s : String) : ({ t with gap := [] } : Token).isSymbol s = t.isSymbol s := rfl
      rw [hes, partsFrom?, he.read?_eq, Option.bind_some, Token.splitCommasFrom, hungapped,
        hungapped, hungapped, hungapped, hungapped]
      by_cases hopens : (t.isSymbol "(" || t.isSymbol "[") = true
      · have hcomma := not_comma_of_isSymbol hopens (by decide) (by decide) depth
        rw [if_pos hopens, if_neg hcomma, if_pos hopens]
        exact hon (depth + 1)
      rw [if_neg hopens, if_neg hopens]
      by_cases hcloses : (t.isSymbol ")" || t.isSymbol "]") = true
      · have hcomma := not_comma_of_isSymbol hcloses (by decide) (by decide) depth
        rw [if_pos hcloses, if_neg hcomma, if_pos hcloses]
        exact hon (depth - 1)
      rw [if_neg hcloses, if_neg hcloses]
      by_cases hsplit : (t.isSymbol "," && depth == 0) = true
      · obtain ⟨inner, hsub, hinner⟩ := sub?_eq h
        have hafter : Along text c.tokens (us ++ (part ++ [t]) ++ ([] ++ ts)) := by simpa using h
        obtain ⟨parts, hparts, hall⟩ := ih hafter depth
        rw [List.append_nil, ← htail, ← hlen] at hparts
        rw [List.reverse_nil, beq_iff_eq.1 (Bool.and_eq_true_iff.1 hsplit).2] at hall
        rw [if_pos hsplit, if_pos hsplit, List.length_append, hsub, Option.bind_some,
          ← List.length_append, hparts, List.reverse_reverse]
        exact ⟨inner :: parts, rfl, .cons hinner hall⟩
      · rw [if_neg hsplit, if_neg hsplit]
        exact hon depth

theorem At.splitCommas?_eq (h : c.At text us ts) :
    ∃ parts, c.splitCommas? text = some parts ∧
      List.Forall₂ (fun inner run => inner.At text [] run) parts (Token.splitCommas ts) := by
  have halong : Along text c.tokens (us ++ ([] ++ ts)) := h.along
  have hparts := partsFrom?_eq halong 0
  rwa [List.append_nil, ← h.pos_eq] at hparts

/-- The source between two indices is the text from the first token to the last. -/
theorem textBetween?_eq (h : Along text c.tokens ts) {a b : Nat} (hb : b ≤ ts.length) :
    c.textBetween? text a b = some (Token.span ((ts.drop a).take (b - a))) := by
  have hlen := h.length_eq
  rw [textBetween?]
  split
  · next hle =>
      have hnil : (ts.drop a).take (b - a) = [] := by
        rw [List.take_eq_nil_iff, List.drop_eq_nil_iff]
        omega
      rw [hnil]
      rfl
  · next hlt =>
      obtain ⟨hba, ha⟩ := not_or.1 hlt
      obtain ⟨first, hfirst⟩ : ∃ e, c.tokens[a]? = some e :=
        ⟨_, List.getElem?_eq_getElem (Nat.lt_of_not_le ha)⟩
      obtain ⟨last, hlast⟩ : ∃ e, c.tokens[b - 1]? = some e :=
        ⟨_, List.getElem?_eq_getElem (by omega)⟩
      have hindex : a + (b - a - 1) = b - 1 := by omega
      rw [hfirst, hlast, Option.bind_some, Option.bind_some]
      refine ((h.drop a).take (b - a)).span ?_ ?_
      · rw [List.head?_take, if_neg (by omega), List.head?_drop, hfirst]
      · rw [List.getLast?_take, if_neg (by omega), List.getElem?_drop, hindex, hlast,
          Option.some_or]

/-- The cursors that reading a text comes to: moved along the tokens, into a group, or into a
part between commas. -/
inductive Reachable (d : Dialect) (text : List Char) : Cursor → Prop
  | start {es : List Extent} (h : lex? d text = some es) : Reachable d text ⟨es, 0⟩
  | seek {c : Cursor} {n : Nat} (h : Reachable d text c) (hn : n ≤ c.tokens.length) :
      Reachable d text ⟨c.tokens, n⟩
  | inside {c inner after : Cursor} (h : Reachable d text c)
      (hgroup : c.group? text = some (some inner, after)) : Reachable d text inner
  | part {c inner : Cursor} {parts : List Cursor} (h : Reachable d text c)
      (hparts : c.splitCommas? text = some parts) (hinner : inner ∈ parts) :
      Reachable d text inner

theorem At.seek (h : c.At text us ts) {n : Nat} (hn : n ≤ c.tokens.length) :
    At text ⟨c.tokens, n⟩ ((us ++ ts).take n) ((us ++ ts).drop n) where
  along := by
    rw [List.take_append_drop]
    exact h.along
  pos_eq := by rw [List.length_take_of_le (h.along.length_eq ▸ hn)]

/-- A group is taken as the reader takes it, or none by both. -/
theorem At.exists_group (h : c.At text us ts) (d : Dialect) :
    ∃ inner after run rest us', c.group? text = some (inner, after) ∧
      Reader.group d ts = .ok (run, rest) ∧
      Option.Rel (fun inner run => inner.At text [] run) inner run ∧ after.At text us' rest := by
  cases ts with
  | nil => exact ⟨none, c, none, [], us, h.group?_of_not rfl, rfl, .none, h⟩
  | cons t ts =>
      cases hopens : t.isSymbol "(" with
      | false =>
          exact ⟨none, c, none, t :: ts, us, h.group?_of_not hopens,
            if_neg (Bool.eq_false_iff.1 hopens), .none, h⟩
      | true =>
          obtain ⟨inner, after, us', hgroup, hinner, hafter⟩ := h.group?_eq hopens
          exact ⟨some inner, after, _, _, us', hgroup, if_pos hopens, .some hinner, hafter⟩

theorem exists_of_mem {parts : List Cursor} {runs : List (List Token)}
    (h : List.Forall₂ (fun inner run => inner.At text [] run) parts runs) (hc : c ∈ parts) :
    ∃ run, c.At text [] run := by
  induction h with
  | nil => cases hc
  | cons h _ ih =>
      rcases List.mem_cons.1 hc with rfl | hc
      · exact ⟨_, h⟩
      · exact ih hc

/-- Wherever reading a text comes, what lies ahead follows one another in the text. -/
theorem Reachable.exists_at {d : Dialect} (h : Reachable d text c) : ∃ us ts, c.At text us ts := by
  induction h with
  | start h => exact ⟨[], _, Along.of_lex? d h, rfl⟩
  | seek _ hn ih =>
      obtain ⟨us, ts, h⟩ := ih
      exact ⟨_, _, h.seek hn⟩
  | inside _ hgroup ih =>
      obtain ⟨us, ts, h⟩ := ih
      obtain ⟨found, after, run, rest, us', hsome, -, hinner, -⟩ := h.exists_group d
      rw [hsome] at hgroup
      cases hgroup
      cases hinner with
      | some hinner => exact ⟨[], _, hinner⟩
  | part _ hparts hmem ih =>
      obtain ⟨us, ts, h⟩ := ih
      obtain ⟨parts, hsome, hall⟩ := h.splitCommas?_eq
      rw [hsome] at hparts
      cases hparts
      obtain ⟨run, hrun⟩ := exists_of_mem hall hmem
      exact ⟨[], run, hrun⟩

/-- Reading on from a cursor fails nowhere, and finds what the reader finds in the tokens ahead:
the group that begins there, the parts between commas, and the source between two places. -/
structure Agrees (d : Dialect) (text : List Char) (c : Cursor) (us ts : List Token) : Prop where
  stands : c.At text us ts
  group : ∃ inner after run rest us', c.group? text = some (inner, after) ∧
    Reader.group d ts = .ok (run, rest) ∧
    Option.Rel (fun inner run => inner.At text [] run) inner run ∧ after.At text us' rest
  parts : ∃ parts, c.splitCommas? text = some parts ∧
    List.Forall₂ (fun inner run => inner.At text [] run) parts (Token.splitCommas ts)
  source : ∀ a b, b ≤ c.tokens.length →
    c.textBetween? text a b = some (Token.span (((us ++ ts).drop a).take (b - a)))

theorem Reachable.agrees {d : Dialect} (h : Reachable d text c) :
    ∃ us ts, c.Agrees d text us ts := by
  obtain ⟨us, ts, h⟩ := h.exists_at
  exact ⟨us, ts, h, h.exists_group d, h.splitCommas?_eq,
    fun a b hb => textBetween?_eq h.along (h.along.length_eq ▸ hb)⟩

end Cursor

end Bytes

end SchemaDrift
