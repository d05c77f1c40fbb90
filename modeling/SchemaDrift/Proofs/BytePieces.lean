import SchemaDrift.Proofs.ByteSplit
import SchemaDrift.Proofs.Turn

namespace SchemaDrift

open Text

theorem Delimiter.toList_bytes (δ : Delimiter) : δ.bytes.toList = Text.bytes δ.toList := by
  obtain ⟨b, bs, hb⟩ := exists_leads δ.head
  have hbytes : Text.bytes δ.toList = b :: (bs ++ Text.bytes δ.tail) := by
    rw [Delimiter.toList, bytes_cons, hb.charBytes_eq, List.cons_append]
  rw [Delimiter.bytes, hbytes]
  rfl

theorem toNat_lt_of_isTag {tag : List Char} (h : IsTag tag) : ∀ c ∈ tag, c.toNat < 128 := by
  obtain ⟨name, rfl, hname, -⟩ := h
  intro c hc
  simp only [List.mem_cons, List.mem_append, List.not_mem_nil, or_false] at hc
  rcases hc with rfl | hc | rfl
  · decide
  · have hc := hname c hc
    rw [Bool.or_eq_true] at hc
    rcases hc with hc | hc
    · exact toNat_lt_of_isAlphanum hc
    · rw [beq_iff_eq.1 hc]
      decide
  · decide

namespace Bytes

variable {d : Dialect} {δ : Delimiter} {behind s : List Char} {c b : Char} {bs : List Char}

def measured (s : List Char) (piece : Piece × Nat) : Piece × Nat :=
  (piece.1, if piece.1 = .mark then 1 else extent s piece.2)

theorem closed_measured (hc : c.toNat < 128) (what : Unclosed) (size : Option Nat)
    (s : List Char) :
    Piece.closed what (size.map (extent s)) =
      (Piece.closed what size).map (measured (c :: s)) := by
  cases size with
  | none => rfl
  | some n =>
      refine congrArg (fun m => Except.ok (Piece.quoted, m)) ?_
      rw [if_neg (fun h => Piece.noConfusion h), extent_cons, utf8Size_of_ascii hc, Nat.add_comm]

theorem ofCode_bytes (hc : c.toNat < 128) (hdollar : (c == '$' && d.dollarQuotes) = false) :
    Piece.ofCode d δ.bytes (bytesBehind behind) c (bytes s) =
      (Piece.ofCode d δ behind c s).map (measured (c :: s)) := by
  have hquote (close : Char) (backslash : Bool) (what : Unclosed) (hclose : close.toNat < 128) :
      Piece.closed what (quotedSize close backslash (bytes s)) =
        (Piece.closed what (quotedSize close backslash s)).map (measured (c :: s)) := by
    rw [quotedSize_bytes hclose, closed_measured hc]
  unfold Piece.ofCode
  rw [hdollar, Piece.followsEscapePrefix_bytesBehind, head?_bytesBehind Piece.isUniform_isWordChar,
    Piece.wordTailSize_bytes δ.toList_bytes, hquote _ _ _ (by decide), hquote _ _ _ (by decide),
    hquote _ _ _ (by decide), hquote _ _ _ (by decide)]
  split
  · rfl
  split
  · rfl
  split
  · rfl
  split
  · rfl
  rw [if_neg Bool.false_ne_true, if_neg Bool.false_ne_true]
  split
  · refine congrArg (fun m => Except.ok (Piece.word, m)) ?_
    rw [if_neg (fun h => Piece.noConfusion h), extent_cons, utf8Size_of_ascii hc, Nat.add_comm]
  · rfl

/-- An opener is the same in bytes. -/
theorem exists_opener {tag : Nat} (h : dollarTagSize ('$' :: s) = some tag) :
    ∃ opener rest, '$' :: s = opener ++ rest ∧ '$' :: bytes s = opener ++ bytes rest ∧
      tag = opener.length ∧ IsTag opener := by
  obtain ⟨opener, rest, hs, hlen, hopener⟩ := dollarTagSize_eq_some_iff.1 h
  have hbytes := congrArg bytes hs
  rw [bytes_append, bytes_of_ascii (toNat_lt_of_isTag hopener), bytes_cons,
    charBytes_of_ascii (by decide)] at hbytes
  exact ⟨opener, rest, hs, hbytes, hlen, hopener⟩

theorem indexOf?_opener {opener : List Char} (h : IsTag opener) (rest : List Char) :
    indexOf? opener (bytes rest) = (indexOf? opener rest).map (extent rest) := by
  have hfind := indexOf?_bytes (ne_nil_of_isTag h) rest
  rwa [bytes_of_ascii (toNat_lt_of_isTag h)] at hfind

theorem extent_enclosed {opener rest : List Char} {n : Nat} (h : IsTag opener)
    (hn : indexOf? opener rest = some n) :
    extent (opener ++ rest) (opener.length + n + opener.length) =
      opener.length + extent rest n + opener.length := by
  obtain ⟨body, after, rfl, rfl, -⟩ := (indexOf?_eq_some_iff (ne_nil_of_isTag h)).1 hn
  have hrun : opener ++ (body ++ (opener ++ after)) = opener ++ body ++ opener ++ after := by
    simp only [List.append_assoc]
  have hlen : opener.length + body.length + opener.length = (opener ++ body ++ opener).length := by
    simp only [List.length_append]
  rw [hrun, hlen, extent_append_length, extent_append_length, byteSize_append, byteSize_append,
    byteSize_of_ascii (toNat_lt_of_isTag h)]

theorem dollarQuoted?_bytes (hd : d.dollarQuotes = true) :
    dollarQuoted? ('$' :: bytes s) =
      some ((Piece.ofCode d δ behind '$' s).map (measured ('$' :: s))) := by
  cases htag : dollarTagSize ('$' :: s) with
  | none =>
      have hmark : Piece.ofCode d δ behind '$' s = .ok (.mark, 1) := by
        simp [Piece.ofCode, hd, htag]
      rw [dollarQuoted?, dollarTagSize_bytes, htag, hmark]
      rfl
  | some tag =>
      obtain ⟨opener, rest, hs, hbytes, rfl, hopener⟩ := exists_opener htag
      have hcut : cut? (opener ++ bytes rest) 0 opener.length = some opener := by
        rw [cut?, if_pos ⟨Nat.zero_le _, by rw [List.length_append]; exact Nat.le_add_right _ _⟩,
          List.drop_zero, Nat.sub_zero, List.take_left]
      have hcut' : cut? (opener ++ bytes rest) opener.length (opener ++ bytes rest).length =
          some (bytes rest) := by
        rw [cut?, if_pos ⟨by rw [List.length_append]; exact Nat.le_add_right _ _, Nat.le_refl _⟩,
          List.drop_left, List.length_append, Nat.add_sub_cancel_left, List.take_length]
      rw [dollarQuoted?, dollarTagSize_bytes, htag, hbytes]
      dsimp only
      rw [hcut, Option.bind_some, hcut', Option.map_some, indexOf?_opener hopener,
        Piece.ofCode_of_tag hd δ behind hopener hs]
      cases hbody : indexOf? opener rest with
      | none => rfl
      | some n =>
          have hpos := List.length_pos_iff.2 (ne_nil_of_isTag hopener)
          have hlen : opener.length + n + opener.length - 1 + 1 =
              opener.length + n + opener.length := Nat.sub_add_cancel (by omega)
          refine congrArg (fun m => some (Except.ok (Piece.quoted, m))) ?_
          rw [if_neg (fun h => Piece.noConfusion h), hs, hlen, extent_enclosed hopener hbody]
          exact Nat.sub_add_cancel (by omega)

theorem ofCode_bytes_of_wide (hb : Leads c b bs) (hc : 128 ≤ c.toNat) :
    Piece.ofCode d δ.bytes (bytesBehind behind) b (bs ++ bytes s) =
      (Piece.ofCode d δ behind c s).map (measured (c :: s)) := by
  have hword : Piece.isWordStart c = true := by simp [Piece.isWordStart, hc]
  have hword' : Piece.isWordStart b = true := (hb.apply Piece.isUniform_isWordStart).trans hword
  unfold Piece.ofCode
  simp only [hb.beq (by decide : '\''.toNat < 128), hb.beq (by decide : '"'.toNat < 128),
    hb.beq (by decide : '\x60'.toNat < 128), hb.beq (by decide : '['.toNat < 128),
    hb.beq (by decide : '$'.toNat < 128), beq_of_wide (by decide : '\''.toNat < 128) hc,
    beq_of_wide (by decide : '"'.toNat < 128) hc, beq_of_wide (by decide : '\x60'.toNat < 128) hc,
    beq_of_wide (by decide : '['.toNat < 128) hc, beq_of_wide (by decide : '$'.toNat < 128) hc,
    Bool.false_and, Bool.false_eq_true, if_false, hword, hword', Bool.true_and,
    head?_bytesBehind Piece.isUniform_isWordChar]
  split
  · refine congrArg (fun m => Except.ok (Piece.word, m)) ?_
    rw [if_neg (fun h => Piece.noConfusion h), extent_cons,
      Piece.wordTailSize_append_of_continuation δ.toList_bytes hb.inner,
      Piece.wordTailSize_bytes δ.toList_bytes, hb.utf8Size_eq]
    omega
  · rfl

theorem ofCode?_bytes (hb : Leads c b bs) :
    ofCode? d δ.bytes (bytesBehind behind) b (bs ++ bytes s) =
      some ((Piece.ofCode d δ behind c s).map (measured (c :: s))) := by
  unfold ofCode?
  rcases hb.same with ⟨hc, rfl, rfl⟩ | ⟨hc, hwide⟩
  · rw [List.nil_append]
    split
    · next hdollar =>
        rw [Bool.and_eq_true, beq_iff_eq] at hdollar
        obtain ⟨rfl, hd⟩ := hdollar
        exact dollarQuoted?_bytes hd
    · next hdollar => rw [ofCode_bytes hc (Bool.eq_false_iff.2 hdollar)]
  · rw [beq_of_wide (by decide) hwide, Bool.false_and, if_neg Bool.false_ne_true,
      ofCode_bytes_of_wide hb hc]

/-- The count of open comments stays above zero. -/
theorem commentSize?_eq {depth : Nat} (hd : 1 ≤ depth) (s : List Char) :
    commentSize? depth s = some (Piece.commentSize depth s) := by
  fun_induction commentSize? depth s with
  | case1 => rfl
  | case2 depth s ih =>
      rw [Piece.commentSize, ih (Nat.le_add_left 1 depth)]
      rfl
  | case3 s => exact absurd hd (by decide)
  | case4 depth s hzero hone => rw [Piece.commentSize, if_pos (by omega)]
  | case5 depth s hzero hone ih =>
      rw [Piece.commentSize, if_neg (by omega), ih (by omega)]
      rfl
  | case6 depth b s hno hno' ih =>
      rw [Piece.commentSize, ih hd]
      · rfl
      · exact hno
      · exact hno'

end Bytes

namespace Spot

open Bytes

variable {script : List Char} {here : Spot}

def place (here : Spot) : Place := ⟨bytesBehind here.behind, bytes here.ahead⟩

structure In (script : List Char) (here : Spot) : Prop where
  script_eq : script = here.behind.reverse ++ here.ahead
  offset_eq : here.offset = byteSize here.behind.reverse
  line_eq : here.line = 1 + newlines here.behind.reverse

theorem in_start (script : List Char) : (Spot.start script).In script := ⟨rfl, rfl, rfl⟩

theorem In.advance (h : here.In script) (n : Nat) : (here.advance n).In script where
  script_eq := by
    rw [h.script_eq]
    simp [Spot.advance]
  offset_eq := by
    rw [offset_advance, h.offset_eq]
    simp [Spot.advance]
  line_eq := by
    rw [line_advance, h.line_eq]
    simp [Spot.advance, Nat.add_assoc]

theorem index_place (here : Spot) : here.place.index = byteSize here.behind.reverse := by
  rw [Place.index, place, bytesBehind, List.length_reverse, length_bytes]

theorem In.index_place_eq (h : here.In script) : here.place.index = here.offset := by
  rw [index_place, h.offset_eq]

theorem place_advance (here : Spot) (n : Nat) :
    (here.advance n).place = here.place.advance (extent here.ahead n) := by
  unfold place Place.advance Spot.advance
  dsimp only
  rw [take_bytes, drop_bytes, bytesBehind, List.reverse_append, List.reverse_reverse, bytes_append,
    List.reverse_append]
  rfl

theorem place_toEnd (here : Spot) : here.toEnd.place = here.place.toEnd := by
  rw [toEnd, place_advance, extent_length, ← length_bytes]
  rfl

theorem In.slice?_advance (h : here.In script) (n : Nat) :
    slice? script here.place.index (here.advance n).place.index = some (here.ahead.take n) := by
  rw [index_place, index_place, slice?_eq_some_iff]
  refine ⟨here.behind.reverse, here.ahead.drop n, ?_, rfl, ?_⟩
  · rw [List.take_append_drop, h.script_eq]
  · simp [Spot.advance]

theorem In.text?_eq (h : here.In script) (n : Nat) :
    here.place.text? script (extent here.ahead n) = some (here.ahead.take n) := by
  have hindex : here.place.index + extent here.ahead n = (here.advance n).place.index := by
    rw [index_place, index_place]
    simp [Spot.advance, extent]
  rw [Place.text?, hindex, h.slice?_advance]

theorem In.headWord?_eq (h : here.In script) :
    headWord? script here.place =
      some ((Piece.headWord? here.ahead).map fun w => (w, byteSize w)) := by
  unfold headWord?
  rw [place, Piece.headWord?_bytes]
  cases hword : Piece.headWord? here.ahead with
  | none => rfl
  | some w =>
      obtain ⟨rest, hrest⟩ := Piece.headWord?_prefix hword
      have hsize : (bytes w).length = extent here.ahead w.length := by
        rw [length_bytes, ← hrest, extent_append_length]
      have htext := h.text?_eq w.length
      rw [← hsize, ← hrest, List.take_left] at htext
      change Option.map _ (here.place.text? script (bytes w).length) = _
      rw [htext, length_bytes]
      rfl

theorem In.restOfLine (h : here.In script) :
    here.place.text? script (lineSize here.place.ahead) =
      some (here.ahead.takeWhile (· != '\n')) := by
  have htake : here.ahead.take (lineSize here.ahead) = here.ahead.takeWhile (· != '\n') :=
    (List.prefix_iff_eq_take.1 (List.takeWhile_prefix _)).symm
  have htext := h.text?_eq (lineSize here.ahead)
  rwa [← lineSize_bytes, htake] at htext

theorem In.directive?_eq (h : here.In script) (d : Dialect) :
    Bytes.directive? d script here.place =
      some ((Piece.directive? d here.ahead).map fun found =>
        (found.1, extent here.ahead found.2)) := by
  unfold Bytes.directive? Piece.directive?
  rw [h.headWord?_eq]
  split
  · cases hword : Piece.headWord? here.ahead with
    | none => rfl
    | some w =>
        obtain ⟨rest, hrest⟩ := Piece.headWord?_prefix hword
        have hsize : byteSize w = extent here.ahead w.length := by
          rw [← hrest, extent_append_length]
        have hline := (h.advance w.length).restOfLine
        dsimp only [Option.map_some, Option.bind_some]
        split
        · rw [hsize, ← place_advance, hline, Option.map_some, Option.map_some, extent_add,
            place, lineSize_bytes]
          rfl
        · rfl
  · rfl

variable {c b : Char} {s bs : List Char}

theorem In.terminator?_eq (h : here.In script) (d : Dialect) :
    Bytes.terminator? d script here.place (lineSize here.place.ahead) =
      some (if d.terminatorDirective then Piece.terminator? (here.ahead.takeWhile (· != '\n'))
        else none) := by
  rw [Bytes.terminator?, h.restOfLine]
  split <;> rfl

theorem In.terminator?_dashed (h : here.In script) (d : Dialect)
    (hs : here.ahead = '-' :: '-' :: s) :
    Bytes.terminator? d script (here.place.advance 2) (lineSize (bytes s)) =
      some (if d.terminatorDirective then Piece.terminator? (s.takeWhile (· != '\n'))
        else none) := by
  have hplace : here.place.advance 2 = (here.advance 2).place := by
    rw [place_advance, hs]
    rfl
  have hahead : (here.advance 2).ahead = s := by
    rw [ahead_advance, hs]
    rfl
  have hbody : (here.advance 2).place.ahead = bytes s := congrArg bytes hahead
  have hsets := (h.advance 2).terminator?_eq d
  rwa [hahead, hbody, ← hplace] at hsets

/-- A delimiter that lies ahead is as long in bytes as its characters are. -/
theorem extent_delimiter {δ : Delimiter} (hδ : δ.toList.isPrefixOf here.ahead = true) :
    δ.bytes.tail.length + 1 = extent here.ahead (δ.tail.length + 1) := by
  obtain ⟨rest, hrest⟩ := List.isPrefixOf_iff_prefix.1 hδ
  have hsize : δ.bytes.tail.length + 1 = byteSize δ.toList := by
    rw [← length_bytes, ← δ.toList_bytes]
    rfl
  have hlen : δ.tail.length + 1 = δ.toList.length := rfl
  rw [hsize, hlen, ← hrest, extent_append_length]

theorem In.next?_eq (h : here.In script) (d : Dialect) (δ : Delimiter) (started : Bool)
    (hs : here.ahead = c :: s) (hb : Leads c b bs) :
    next? d δ started script here.place b (bs ++ bytes s) =
      some ((Piece.next d δ started here.behind c s).map (measured here.ahead)) := by
  have hbytes : b :: (bs ++ bytes s) = bytes here.ahead := by
    rw [hs, bytes_cons, hb.charBytes_eq, List.cons_append]
  unfold next? Piece.next
  rw [hb.beq_pair (by decide) (by decide), hb.beq_pair (by decide) (by decide),
    hb.beq (by decide), hb.apply isUniform_isBlank]
  split
  · next hdash =>
      rw [Bool.and_eq_true, beq_iff_eq, beq_iff_eq] at hdash
      obtain ⟨rfl, hdash⟩ := hdash
      obtain ⟨t, rfl⟩ := List.head?_eq_some_iff.1 hdash
      obtain ⟨rfl, rfl⟩ := hb.of_ascii (by decide)
      rw [List.nil_append, bytes_cons, charBytes_of_ascii (by decide), List.singleton_append,
        List.tail_cons, List.tail_cons, h.terminator?_dashed d hs, hs, lineSize_bytes]
      refine congrArg (fun n => some (Except.ok (Piece.comment _, n))) ?_
      rw [if_neg (fun h => Piece.noConfusion h), extent_cons, extent_cons, lineSize,
        utf8Size_of_ascii (by decide)]
      omega
  split
  · next hhash =>
      rw [Bool.and_eq_true, beq_iff_eq] at hhash
      obtain ⟨rfl, -⟩ := hhash
      obtain ⟨rfl, rfl⟩ := hb.of_ascii (by decide)
      rw [List.nil_append, lineSize_bytes, hs]
      refine congrArg (fun n => some (Except.ok (Piece.comment none, n))) ?_
      rw [if_neg (fun h => Piece.noConfusion h), extent_cons]
      exact Nat.add_comm _ _
  split
  · next hopen =>
      rw [Bool.and_eq_true, beq_iff_eq, beq_iff_eq] at hopen
      obtain ⟨rfl, hstar⟩ := hopen
      obtain ⟨t, rfl⟩ := List.head?_eq_some_iff.1 hstar
      obtain ⟨rfl, rfl⟩ := hb.of_ascii (by decide)
      rw [List.nil_append, bytes_cons, charBytes_of_ascii (by decide), List.singleton_append,
        List.tail_cons, List.tail_cons, commentSize?_eq (Nat.le_refl 1), Piece.commentSize_bytes,
        hs]
      cases Piece.commentSize 1 t with
      | none => rfl
      | some n =>
          refine congrArg (fun n => some (Except.ok (Piece.comment none, n))) ?_
          rw [if_neg (fun h => Piece.noConfusion h), extent_cons, extent_cons,
            utf8Size_of_ascii (by decide), utf8Size_of_ascii (by decide)]
          omega
  split
  · next hblank =>
      rw [hs]
      refine congrArg (fun n => some (Except.ok (Piece.blank, n))) ?_
      rw [if_neg (fun h => Piece.noConfusion h), extent_cons, extent_zero,
        utf8Size_of_ascii (toNat_lt_of_isBlank hblank)]
  · have hdirective : (if started then some none else Bytes.directive? d script here.place) =
        some ((if started then none else Piece.directive? d here.ahead).map fun found =>
          (found.1, extent here.ahead found.2)) := by
      split
      · rfl
      · exact h.directive?_eq d
    rw [hdirective, Option.bind_some, ← hs]
    cases if started then none else Piece.directive? d here.ahead with
    | some found => rfl
    | none =>
        rw [Option.map_none]
        dsimp only
        rw [hbytes, δ.toList_bytes, startsWith_bytes]
        split
        · next hδ =>
            refine congrArg (fun n => some (Except.ok (Piece.delimiter, n))) ?_
            rw [if_neg (fun h => Piece.noConfusion h)]
            exact extent_delimiter hδ
        · rw [hs]
          exact ofCode?_bytes hb

end Spot

end SchemaDrift
