import SchemaDrift.Proofs.ByteTurns
import SchemaDrift.Token.Canonical

namespace SchemaDrift

namespace Bytes

open Text

/-- A token by its kind and its bytes, from `start` up to `stop`. What it says is sliced out of the
text, and what is read so has no result where a slice runs past the end or cuts a character in two,
where a count goes below zero, or where a step makes no headway. -/
structure Extent where
  kind : TokenKind
  start : Nat
  stop : Nat
deriving DecidableEq

def find? (s : List Char) (a : Nat) (q : List Char) : Option (Option Nat) :=
  if s.length ≤ a then some none else (cut? s a s.length).map (indexOf? q)

def dollar? (s : List Char) : Option (TokenKind × Nat) :=
  match dollarTagSize s with
  | some tag =>
      (cut? s 0 tag).bind fun opener => (find? s tag opener).map fun
        | some n => (.string, tag + n + tag)
        | none => (.string, s.length)
  | none => some (.symbol, (s.tail.takeWhile Char.isDigit).length + 1)

def head? (d : Dialect) (p : Place) (b : Char) (s : List Char) : Option (Option TokenKind × Nat) :=
  if b == '/' && s.head? == some '*' then
    (find? (b :: s) 2 ['*', '/']).map fun
      | some n => (none, n + 4)
      | none => (none, s.length + 1)
  else if b == '$' && d.dollarQuotes then
    (dollar? (b :: s)).map fun found => (some found.1, found.2)
  else
    let found := Token.head d p.behind.head? b s
    some (found.1, found.2 + 1)

def lexFrom? (d : Dialect) (p : Place) : Option (List Extent) :=
  match p.ahead with
  | [] => some []
  | b :: s =>
      match head? d p b s with
      | none => none
      | some (kind, n) =>
          if (p.advance n).ahead.length < p.ahead.length then
            (lexFrom? d (p.advance n)).map fun es =>
              kind.toList.map (fun kind => ⟨kind, p.index, p.index + n⟩) ++ es
          else none
termination_by p.ahead.length

def lex? (d : Dialect) (text : List Char) : Option (List Extent) := lexFrom? d (.start text)

def extents (i : Nat) : List Token → List Extent
  | [] => []
  | t :: ts =>
      let start := i + byteSize t.gap
      let stop := start + byteSize t.text
      ⟨t.kind, start, stop⟩ :: extents stop ts

variable {d : Dialect} {s t : List Char} {c b : Char} {bs : List Char}

theorem cut?_take {n : Nat} (hn : n ≤ s.length) : cut? s 0 n = some (s.take n) := by
  rw [cut?, if_pos ⟨Nat.zero_le n, hn⟩, List.drop_zero, Nat.sub_zero]

theorem find?_eq {a : Nat} (q : List Char) : find? s a q = some (indexOf? q (s.drop a)) := by
  rw [find?]
  split
  · next hle =>
      rw [List.drop_of_length_le hle]
      rfl
  · next hlt =>
      rw [cut?, if_pos ⟨Nat.le_of_lt (Nat.lt_of_not_le hlt), Nat.le_refl _⟩, Option.map_some,
        List.take_of_length_le (by rw [List.length_drop])]

theorem dollarTagSize_le {n : Nat} (h : dollarTagSize ('$' :: s) = some n) :
    n ≤ ('$' :: s).length := by
  obtain ⟨opener, rest, hs, rfl, -⟩ := dollarTagSize_eq_some_iff.1 h
  rw [hs, List.length_append]
  exact Nat.le_add_right _ _

theorem dollar?_eq (s : List Char) :
    dollar? ('$' :: s) = some ((Token.dollarSize s).1, (Token.dollarSize s).2 + 1) := by
  unfold dollar? Token.dollarSize
  cases htag : dollarTagSize ('$' :: s) with
  | none => rfl
  | some tag =>
      have hpos : 0 < tag := by
        obtain ⟨opener, rest, -, rfl, hopener⟩ := dollarTagSize_eq_some_iff.1 htag
        exact List.length_pos_iff.2 (ne_nil_of_isTag hopener)
      dsimp only
      rw [cut?_take (dollarTagSize_le htag), Option.bind_some, find?_eq, Option.map_some]
      cases indexOf? (('$' :: s).take tag) (('$' :: s).drop tag) with
      | none => rfl
      | some n =>
          dsimp only
          rw [Nat.sub_add_cancel (by omega)]

/-- The slices within a token of bytes are in range. -/
theorem head?_eq (d : Dialect) (p : Place) (b : Char) (s : List Char) :
    head? d p b s =
      some ((Token.head d p.behind.head? b s).1, (Token.head d p.behind.head? b s).2 + 1) := by
  unfold head?
  split
  · next hopen =>
      rw [Bool.and_eq_true, beq_iff_eq, beq_iff_eq] at hopen
      obtain ⟨rfl, hstar⟩ := hopen
      obtain ⟨t, rfl⟩ := List.head?_eq_some_iff.1 hstar
      have hhead : Token.head d p.behind.head? '/' ('*' :: t) =
          (none, Token.commentSize t + 1) := rfl
      have hfind : find? ('/' :: '*' :: t) 2 ['*', '/'] = some (indexOf? ['*', '/'] t) :=
        find?_eq _
      rw [hhead, hfind, Option.map_some, Token.commentSize]
      cases indexOf? ['*', '/'] t <;> rfl
  split
  · next hdollar =>
      rw [Bool.and_eq_true, beq_iff_eq] at hdollar
      obtain ⟨rfl, hd⟩ := hdollar
      rw [Token.head_of_dollar hd, dollar?_eq]
      rfl
  · rfl

theorem commentSize_bytes (s : List Char) :
    Token.commentSize (bytes s) = extent s (Token.commentSize s) := by
  have hascii : ∀ c ∈ ['*', '/'], c.toNat < 128 :=
    List.forall_mem_cons.2 ⟨by decide, List.forall_mem_singleton.2 (by decide)⟩
  have hfind := indexOf?_bytes (List.cons_ne_nil '*' ['/']) s
  rw [bytes_of_ascii hascii] at hfind
  rw [Token.commentSize, Token.commentSize, hfind]
  cases hindex : indexOf? ['*', '/'] s with
  | none => exact (length_bytes s).trans (extent_length s).symm
  | some n =>
      obtain ⟨body, rest, rfl, rfl, -⟩ :=
        (indexOf?_eq_some_iff (List.cons_ne_nil '*' ['/'])).1 hindex
      have hlen : body.length + 2 = (body ++ ['*', '/']).length := by simp
      dsimp only [Option.map_some]
      rw [extent_append_length, hlen, ← List.append_assoc, extent_append_length, byteSize_append,
        byteSize_of_ascii hascii]
      rfl

theorem quotedSize_bytes_getD (close : Char) (hclose : close.toNat < 128) (backslash : Bool)
    (s : List Char) :
    Token.quotedSize close backslash (bytes s) = extent s (Token.quotedSize close backslash s) := by
  rw [Token.quotedSize, Token.quotedSize, quotedSize_bytes hclose]
  cases Text.quotedSize close backslash s with
  | none => exact (length_bytes s).trans (extent_length s).symm
  | some n => rfl

theorem takeWhile_bytes_length {p : Char → Bool} (hp : IsUniform p) (s : List Char) :
    ((bytes s).takeWhile p).length = extent s (s.takeWhile p).length := by
  rw [takeWhile_bytes hp, length_bytes, extent_takeWhile]

theorem dollarSize_bytes (s : List Char) :
    Token.dollarSize (bytes s) = ((Token.dollarSize s).1, extent s (Token.dollarSize s).2) := by
  unfold Token.dollarSize
  rw [dollarTagSize_bytes]
  cases htag : dollarTagSize ('$' :: s) with
  | none => rw [takeWhile_bytes_length isUniform_isDigit]
  | some tag =>
      obtain ⟨opener, rest, hs, hbytes, rfl, hopener⟩ := exists_opener htag
      dsimp only
      rw [hbytes, hs, List.take_left, List.take_left, List.drop_left, List.drop_left,
        indexOf?_opener hopener]
      cases hbody : indexOf? opener rest with
      | none => exact congrArg (Prod.mk _) ((length_bytes s).trans (extent_length s).symm)
      | some n =>
          have hpos := List.length_pos_iff.2 (ne_nil_of_isTag hopener)
          have hlen : opener.length + n + opener.length =
              opener.length + n + opener.length - 1 + 1 := (Nat.sub_add_cancel (by omega)).symm
          have hsize := extent_enclosed hopener hbody
          rw [← hs, hlen, extent_cons, utf8Size_of_ascii (by decide)] at hsize
          refine congrArg (Prod.mk _) ?_
          dsimp only
          omega

theorem isUniform_isWordChar : IsUniform Token.isWordChar :=
  ⟨true, fun c hc => by simp [Token.isWordChar, hc]⟩

theorem isUniform_isNumberChar : IsUniform (fun e => e.isAlphanum || e == '.') :=
  isUniform_isAlphanum.or (isUniform_beq (by decide))

theorem toNat_lt_of_mem_twoCharSymbols {e : Char}
    (h : Token.twoCharSymbols.contains (c, e) = true) : e.toNat < 128 := by
  simp only [Token.twoCharSymbols, List.contains_eq_mem, List.mem_cons, List.not_mem_nil, or_false,
    Prod.mk.injEq, decide_eq_true_eq] at h
  rcases h with h | h | h | h | h | h | h | h <;> rw [h.2] <;> decide

def inBytes (s : List Char) (found : Option TokenKind × Nat) : Option TokenKind × Nat :=
  (found.1, extent s found.2)

theorem opening_bytes (d : Dialect) (c : Char) (s : List Char) :
    Token.Opening.of d c (bytes s).head? = Token.Opening.of d c s.head? := by
  have hsymbol : IsUniform (fun e => Token.twoCharSymbols.contains (c, e)) :=
    isUniform_of_ascii fun e => toNat_lt_of_mem_twoCharSymbols
  unfold Token.Opening.of
  rw [head?_bytes_beq (a := '-') (by decide), head?_bytes_beq (a := '*') (by decide),
    head?_bytes_beq (a := '\'') (by decide), head?_bytes isUniform_isDigit, head?_bytes hsymbol]

theorem head_bytes_of_ascii (hc : c.toNat < 128) (behind s : List Char) :
    Token.head d (bytesBehind behind).head? c (bytes s) =
      inBytes s (Token.head d behind.head? c s) := by
  rw [Token.head_eq_taken, Token.head_eq_taken, opening_bytes]
  have hfits := Token.Opening.fits_of d c s.head?
  generalize Token.Opening.of d c s.head? = o at hfits
  unfold Token.Opening.taken
  cases o with
  | blank | letter | sign => rfl
  | line => exact congrArg (Prod.mk none) (lineSize_bytes s)
  | block =>
      obtain ⟨t, rfl⟩ := List.head?_eq_some_iff.1 hfits.2
      dsimp only
      rw [bytes_cons, charBytes_of_ascii (by decide), List.singleton_append, List.tail_cons,
        List.tail_cons, commentSize_bytes, inBytes, extent_cons, Nat.add_comm]
      rfl
  | single =>
      dsimp only
      rw [head?_bytesBehind_beq (a := 'E') (by decide), head?_bytesBehind_beq (a := 'e') (by decide),
        quotedSize_bytes_getD '\'' (by decide)]
      rfl
  | double => exact congrArg (Prod.mk _) (quotedSize_bytes_getD c hc _ s)
  | bracket => exact congrArg (Prod.mk _) (quotedSize_bytes_getD ']' (by decide) _ s)
  | dollar =>
      dsimp only
      rw [dollarSize_bytes]
      rfl
  | number => exact congrArg (Prod.mk _) (takeWhile_bytes_length isUniform_isNumberChar s)
  | word => exact congrArg (Prod.mk _) (takeWhile_bytes_length isUniform_isWordChar s)
  | pair =>
      obtain ⟨-, e, he, hmem⟩ := hfits
      obtain ⟨t, rfl⟩ := List.head?_eq_some_iff.1 he
      have hascii := toNat_lt_of_mem_twoCharSymbols (List.contains_iff_mem.2 hmem)
      dsimp only
      rw [inBytes, extent_cons, extent_zero, utf8Size_of_ascii hascii]

theorem head_of_wide (hc : 128 ≤ c.toNat) (last : Option Char) (s : List Char) :
    Token.head d last c s = (some .word, (s.takeWhile Token.isWordChar).length) := by
  obtain ⟨o, hfits, htaken⟩ := Token.exists_opening (rfl : Token.head d last c s = _)
  rw [← htaken]
  rcases hfits.eq_of_isWordStart (by simp [Token.isWordStart, hc]) with rfl | rfl
  · have hascii : "EeNnXxBb".toList.all (fun e => decide (e.toNat < 128)) = true := by decide
    have hlt := List.all_eq_true.1 hascii c (List.contains_iff_mem.1 hfits.1)
    exact absurd (of_decide_eq_true hlt) (Nat.not_lt_of_le hc)
  · rfl

/-- What begins with a character begins with its bytes. -/
theorem head_bytes (hb : Leads c b bs) (behind s : List Char) :
    Token.head d (bytesBehind behind).head? b (bs ++ bytes s) =
      ((Token.head d behind.head? c s).1,
        bs.length + extent s (Token.head d behind.head? c s).2) := by
  rcases hb.same with ⟨hc, rfl, rfl⟩ | ⟨hc, hwide⟩
  · rw [List.nil_append, head_bytes_of_ascii hc, inBytes, List.length_nil, Nat.zero_add]
  · have hbs : ∀ e ∈ bs, Token.isWordChar e = true := fun e he => by
      simp [Token.isWordChar, hb.wide e he]
    rw [head_of_wide hc, head_of_wide hwide, List.takeWhile_append_of_pos hbs, List.length_append,
      takeWhile_bytes_length isUniform_isWordChar]

/-- A step by bytes goes as far as the step by characters. -/
theorem head?_place {here : Spot} {body rest : List Char} {kind : Option TokenKind}
    (hb : Leads c b bs)
    (h : Token.head d here.behind.head? c (body ++ rest) = (kind, body.length)) :
    head? d here.place b (bs ++ bytes (body ++ rest)) = some (kind, byteSize (c :: body)) := by
  have hsize := hb.utf8Size_eq
  rw [head?_eq, Spot.place, head_bytes hb, h, extent_append_length, byteSize, hsize]
  refine congrArg some (congrArg (Prod.mk kind) ?_)
  dsimp only
  omega

theorem lexFrom?_place {here : Spot} {body rest : List Char} {kind : Option TokenKind}
    {es : List Extent} (hs : here.ahead = c :: (body ++ rest))
    (h : Token.head d here.behind.head? c (body ++ rest) = (kind, body.length))
    (hrest : lexFrom? d (here.advance (c :: body).length).place = some es) :
    lexFrom? d here.place = some (kind.toList.map (fun kind =>
      ⟨kind, here.place.index, here.place.index + byteSize (c :: body)⟩) ++ es) := by
  obtain ⟨b, bs, hb⟩ := exists_leads c
  have hsize : byteSize (c :: body) = extent here.ahead (c :: body).length := by
    rw [hs, ← List.cons_append, extent_append_length]
  have hahead : here.place.ahead = b :: (bs ++ bytes (body ++ rest)) := by
    rw [Spot.place, hs, bytes_cons, hb.charBytes_eq, List.cons_append]
  have hplace : here.place.advance (byteSize (c :: body)) =
      (here.advance (c :: body).length).place := by
    rw [hsize, Spot.place_advance]
  have hlt : (here.advance (c :: body).length).place.ahead.length < here.place.ahead.length := by
    have hpos := byteSize_pos (List.cons_ne_nil c body)
    have hlen : here.place.ahead.length = byteSize (c :: body) + byteSize rest := by
      rw [Spot.place, length_bytes, hs, ← List.cons_append, byteSize_append]
    have hlen' : (here.advance (c :: body).length).place.ahead.length = byteSize rest := by
      rw [Spot.place, length_bytes, Spot.ahead_advance, hs, ← List.cons_append, List.drop_left]
    omega
  rw [lexFrom?, hahead]
  dsimp only
  rw [head?_place hb h]
  dsimp only
  rw [hplace, ← hahead, if_pos hlt, hrest, Option.map_some]

theorem behind_advance {here : Spot} {body rest : List Char}
    (hs : here.ahead = c :: (body ++ rest)) :
    (here.advance (c :: body).length).behind = (c :: body).reverse ++ here.behind := by
  rw [Spot.advance, hs, ← List.cons_append, List.take_left]

theorem index_advance {here : Spot} {body rest : List Char}
    (hs : here.ahead = c :: (body ++ rest)) :
    here.place.index + byteSize (c :: body) = (here.advance (c :: body).length).place.index := by
  rw [Spot.index_place, Spot.index_place, behind_advance hs, List.reverse_append,
    List.reverse_reverse, byteSize_append]

theorem ahead_advance {here : Spot} {body rest : List Char}
    (hs : here.ahead = c :: (body ++ rest)) : (here.advance (c :: body).length).ahead = rest := by
  rw [Spot.ahead_advance, hs, ← List.cons_append, List.drop_left]

theorem last_advance {here : Spot} {body rest : List Char}
    (hs : here.ahead = c :: (body ++ rest)) :
    (here.advance (c :: body).length).behind.head? = (c :: body).getLast? := by
  rw [behind_advance hs, List.head?_append, List.head?_reverse, List.getLast?_cons, Option.some_or]

theorem lexFrom?_eq {last : Option Char} {gap trailing : List Char} {ts : List Token}
    (t : Token.Lexes d last gap s ts trailing) {here : Spot} (hs : here.ahead = s)
    (hlast : here.behind.head? = last) {i : Nat} (hi : i + byteSize gap = here.place.index) :
    lexFrom? d here.place = some (extents i ts) := by
  induction t generalizing here i with
  | nil =>
      have hahead : here.place.ahead = [] := by rw [Spot.place, hs, bytes_nil]
      rw [lexFrom?, hahead]
      rfl
  | skip h t ih =>
      rw [← hlast] at h
      refine lexFrom?_place hs h (ih (ahead_advance hs) (last_advance hs) ?_)
      rw [byteSize_append, ← index_advance hs, ← hi, Nat.add_assoc]
  | token h t ih =>
      rw [← hlast] at h
      rw [lexFrom?_place hs h (ih (ahead_advance hs) (last_advance hs) (index_advance hs)), extents,
        hi]
      rfl

/-- Taking a text apart by the positions of its bytes makes headway in every step, and finds the
tokens. -/
theorem lex?_eq (d : Dialect) (text : List Char) :
    lex? d text = some (extents 0 (Token.lex d text)) := by
  have hstart : (Spot.start text).ahead = text := rfl
  exact lexFrom?_eq (Token.lexes_lex d text) hstart rfl rfl

end Bytes

end SchemaDrift
