import SchemaDrift.Grammar.View
import SchemaDrift.Proofs.Alike

namespace SchemaDrift

namespace Text.References

inductive Part : List Char → Prop
  | word {c : Char} {w : List Char} (hc : (c.isAlpha || c == '_') = true)
      (hw : ∀ x ∈ w, isNameChar x = true) : Part (c :: w)
  | quoted {q : Char} {body : List Char} (hq : q = '"' ∨ q = '\x60') (hbody : q ∉ body) :
      Part (q :: (body ++ [q]))
  | bracketed {body : List Char} (hbody : ']' ∉ body) : Part ('[' :: (body ++ [']']))

inductive Dotted : List Char → Prop
  | nil : Dotted []
  | part {gap gap' part rest : List Char} (hgap : ∀ c ∈ gap, isGap c = true)
      (hgap' : ∀ c ∈ gap', isGap c = true) (hpart : Part part) (h : Dotted rest) :
      Dotted (gap ++ '.' :: (gap' ++ (part ++ rest)))

theorem takeWhile_spec (p : Char → Bool) (s : List Char) :
    ∃ rest, s = s.takeWhile p ++ rest ∧ s.drop (s.takeWhile p).length = rest ∧
      ∀ c ∈ s.takeWhile p, p c = true := by
  refine ⟨s.dropWhile p, (List.takeWhile_append_dropWhile).symm, drop_length_takeWhile p s, ?_⟩
  exact fun c hc => List.mem_takeWhile_imp hc

theorem quotedSize_eq_some {closing : Char} {s : List Char} {n : Nat}
    (h : quotedSize closing s = some n) :
    ∃ body rest, s = body ++ closing :: rest ∧ n = body.length + 2 ∧ closing ∉ body := by
  obtain ⟨rest, hs, hdrop, hbody⟩ := takeWhile_spec (· != closing) s
  simp only [quotedSize, hdrop, Option.ite_none_left_eq_some, Bool.or_eq_true, not_or,
    Option.some.injEq] at h
  obtain ⟨⟨-, hrest⟩, rfl⟩ := h
  have hhead := List.head?_dropWhile_not (· != closing) s
  rw [← drop_length_takeWhile, hdrop] at hhead
  cases rest with
  | nil => exact absurd rfl hrest
  | cons c rest =>
      obtain rfl : c = closing := by simpa using hhead
      exact ⟨_, rest, hs, rfl, fun hmem => by simpa using hbody _ hmem⟩

theorem partSize_eq_some {s : List Char} {n : Nat} (h : partSize s = some n) :
    ∃ part rest, s = part ++ rest ∧ n = part.length ∧ Part part := by
  cases s with
  | nil => cases h
  | cons c s =>
      simp only [partSize] at h
      split at h
      · next hq =>
          obtain ⟨body, rest, rfl, rfl, hbody⟩ := quotedSize_eq_some h
          rw [Bool.or_eq_true, beq_iff_eq, beq_iff_eq] at hq
          exact ⟨c :: (body ++ [c]), rest, by simp, by simp, .quoted hq hbody⟩
      split at h
      · next hq =>
          obtain rfl := beq_iff_eq.1 hq
          obtain ⟨body, rest, rfl, rfl, hbody⟩ := quotedSize_eq_some h
          exact ⟨'[' :: (body ++ [']']), rest, by simp, by simp, .bracketed hbody⟩
      split at h
      · next hc =>
          obtain ⟨rest, hs, -, hw⟩ := takeWhile_spec isNameChar s
          cases h
          exact ⟨c :: s.takeWhile isNameChar, rest, by rw [List.cons_append, ← hs], by simp,
            .word hc hw⟩
      · cases h

theorem nextPartSize_eq_some {s : List Char} {n : Nat} (h : nextPartSize s = some n) :
    ∃ run rest, s = run ++ rest ∧ n = run.length ∧ ∀ after, Dotted after → Dotted (run ++ after) := by
  obtain ⟨rest, hs, hdrop, hgap⟩ := takeWhile_spec isGap s
  simp only [nextPartSize, hdrop] at h
  split at h
  · next rest =>
      obtain ⟨rest', hs', hdrop', hgap'⟩ := takeWhile_spec isGap rest
      rw [hdrop'] at h
      obtain ⟨m, hm, rfl⟩ := Option.map_eq_some_iff.1 h
      obtain ⟨part, after, rfl, rfl, hpart⟩ := partSize_eq_some hm
      refine ⟨s.takeWhile isGap ++ '.' :: (rest.takeWhile isGap ++ part), after, ?_, ?_, ?_⟩
      · rw [List.append_assoc, List.cons_append, List.append_assoc, ← hs', ← hs]
      · simp only [List.length_append, List.length_cons]
        omega
      · intro after hafter
        rw [List.append_assoc, List.cons_append, List.append_assoc]
        exact .part hgap hgap' hpart hafter
  · cases h

theorem dotted_take_moreSize (s : List Char) : Dotted (s.take (moreSize s)) := by
  induction hn : s.length using Nat.strong_induction_on generalizing s with
  | _ k ih =>
      subst hn
      rw [moreSize]
      split
      · exact .nil
      · next n h =>
          have hpos := nextPartSize_pos h
          obtain ⟨run, rest, rfl, rfl, hrun⟩ := nextPartSize_eq_some h
          rw [List.drop_left, List.take_length_add_append]
          exact hrun _ (ih rest.length (by rw [List.length_append]; omega) rest rfl)

theorem exists_part_of_nameSize {s : List Char} {n : Nat} (h : nameSize s = some n) :
    ∃ part rest, s.take n = part ++ rest ∧ Part part ∧ Dotted rest := by
  obtain ⟨m, hm, rfl⟩ := Option.map_eq_some_iff.1 h
  obtain ⟨part, rest, rfl, rfl, hpart⟩ := partSize_eq_some hm
  refine ⟨part, _, ?_, hpart, dotted_take_moreSize rest⟩
  rw [List.drop_left, List.take_length_add_append]

theorem exists_part_of_reference? {s name : List Char} {n : Nat}
    (h : reference? s = some (name, n)) :
    ∃ part rest, name = part ++ rest ∧ Part part ∧ Dotted rest := by
  simp only [reference?] at h
  split at h
  · split at h
    · cases h
    · obtain ⟨m, hm, heq⟩ := Option.map_eq_some_iff.1 h
      obtain ⟨rfl, -⟩ := Prod.mk.inj heq
      exact exists_part_of_nameSize hm
  · cases h

theorem exists_part_of_mem_namesFrom {s name : List Char} {skip : Nat} {inWord : Bool}
    (h : name ∈ namesFrom skip inWord s) :
    ∃ part rest, name = part ++ rest ∧ Part part ∧ Dotted rest := by
  induction s generalizing skip inWord with
  | nil => cases h
  | cons c s ih =>
      unfold namesFrom at h
      split at h
      · exact ih h
      · split at h
        · next found size hfound =>
            rcases List.mem_cons.1 h with rfl | h
            · split at hfound
              · cases hfound
              · exact exists_part_of_reference? hfound
            · exact ih h
        · exact ih h

theorem Dotted.head?_spec {rest : List Char} (h : Dotted rest) :
    ∀ c ∈ rest.head?, isGap c = true ∨ c = '.' := by
  intro c hc
  cases h with
  | nil => cases hc
  | @part gap _ _ _ hgap =>
      cases gap with
      | nil => exact .inr (Option.some.inj hc).symm
      | cons e gap =>
          obtain rfl : e = c := Option.some.inj hc
          exact .inl (hgap e List.mem_cons_self)

end Text.References

namespace Token

open Text.References

variable {d : Dialect} {last : Option Char} {gap : List Char}

theorem lexFrom_symbol {c : Char} {rest : List Char}
    (h : head d last c ([] ++ rest) = (some .symbol, 0)) :
    (lexFrom d last gap (c :: ([] ++ rest))).1 =
      ⟨.symbol, gap.reverse, [c]⟩ :: (lexFrom d (some c) [] rest).1 :=
  lexFrom_token h

theorem head_of_gap {c : Char} (hc : isGap c = true) (cs : List Char) :
    head d last c cs = (none, 0) ∨ c = '\x0b' := by
  simp only [isGap, Bool.or_eq_true, beq_iff_eq] at hc
  rcases hc with ((((rfl | rfl) | rfl) | rfl) | rfl) | rfl <;> simp [head, Text.isBlank]

/-- A gap is skipped, up to a vertical tab. -/
theorem lexFrom_gap {blanks : List Char} (hblanks : ∀ c ∈ blanks, isGap c = true)
    (s : List Char) (last : Option Char) (gap : List Char) :
    (∃ last' gap', (lexFrom d last gap (blanks ++ s)).1 = (lexFrom d last' gap' s).1) ∨
      ∃ t us, (lexFrom d last gap (blanks ++ s)).1 = t :: us ∧ t.kind = .symbol ∧
        t.text = ['\x0b'] := by
  induction blanks generalizing last gap with
  | nil => exact .inl ⟨_, _, rfl⟩
  | cons c blanks ih =>
      have ih := ih (fun e he => hblanks e (List.mem_cons_of_mem _ he))
      have hhead : head d last c (blanks ++ s) = (none, 0) ∨ c = '\x0b' :=
        head_of_gap (hblanks c List.mem_cons_self) _
      rcases hhead with hskip | rfl
      · rw [List.cons_append, lexFrom, hskip]
        exact ih _ _
      · have htab : head d last '\x0b' ([] ++ (blanks ++ s)) = (some .symbol, 0) := by
          rw [head, not_pair (by decide)]
          rfl
        rw [List.cons_append, ← List.nil_append (blanks ++ s), lexFrom_symbol htab]
        exact .inr ⟨_, _, rfl, rfl, rfl⟩

theorem isReadable_of_endsAscii {t : Token}
    (h : Identifier.endsAscii (Text.trim t.text) = true) : IsReadable d t := by
  intro _
  simp only [Identifier.read, h, Bool.not_true, Bool.false_eq_true, if_false]
  split <;> exact ⟨_, rfl⟩

theorem isReadable_of_ascii {t : Token} (h : ∀ c ∈ t.text, Identifier.isAscii c = true) :
    IsReadable d t := by
  have htrim : ∀ c ∈ Text.trim t.text, Identifier.isAscii c = true :=
    fun c hc => h c (Text.mem_of_mem_trim _ hc)
  refine isReadable_of_endsAscii (Bool.and_eq_true_iff.2 ⟨?_, ?_⟩)
  · cases hhead : (Text.trim t.text).head? with
    | none => rfl
    | some c => exact htrim c (List.mem_of_head? hhead)
  · cases hlast : (Text.trim t.text).getLast? with
    | none => rfl
    | some c => exact htrim c (List.mem_of_getLast? hlast)

theorem isReadable_of_marks {t : Token} {mark close : Char} {body : List Char}
    (ht : t.text = mark :: (body ++ [close])) (hopen : Text.isSpace mark = false)
    (hclose : Text.isSpace close = false) (hascii : Identifier.isAscii mark = true)
    (hascii' : Identifier.isAscii close = true) : IsReadable d t := by
  have htrim : Text.trim t.text = mark :: (body ++ [close]) := by
    rw [ht, Text.trim, Text.trimStart, List.dropWhile_cons_of_neg (by simp [hopen]), Text.trimEnd]
    simp [hclose]
  refine isReadable_of_endsAscii ?_
  rw [htrim, Identifier.endsAscii, ← List.cons_append, List.getLast?_concat]
  simp [hascii, hascii']

theorem lexFrom_quoted {c close : Char} (hq : Marks d last c close false) {body rest : List Char}
    (hbody : close ∉ body) (hrest : rest.head? ≠ some close) (gap : List Char) :
    ∃ kind, (lexFrom d last gap (c :: (body ++ [close] ++ rest))).1 =
      ⟨kind, gap.reverse, c :: (body ++ [close])⟩ ::
        (lexFrom d (c :: (body ++ [close])).getLast? [] rest).1 := by
  obtain ⟨hclose, kind, hhead, -⟩ := head_of_marks hq (body ++ [close] ++ rest)
  have htail : QuoteTail close false (body ++ [close]) rest := by
    clear hhead
    induction body with
    | nil => exact .close hrest
    | cons e body ih =>
        obtain ⟨hne, hbody⟩ := List.ne_and_not_mem_of_not_mem_cons hbody
        exact .plain (fun h => absurd h Bool.false_ne_true) (Ne.symm hne) (ih hbody)
  rw [quotedSize, Text.quotedSize_of_quoteTail hclose htail, Option.getD_some] at hhead
  exact ⟨kind, lexFrom_token hhead⟩

theorem isWordChar_of_isNameChar {c : Char} (h : isNameChar c = true) : isWordChar c = true := by
  simp only [isNameChar, Text.References.isWordChar, isWordChar, Bool.or_eq_true] at h ⊢
  rcases h with ((h | h) | h) | h <;> simp [h]

theorem isAscii_of_isAlpha {c : Char} (h : c.isAlpha = true) : Identifier.isAscii c = true := by
  change (decide (c.val ≥ 'A'.val ∧ c.val ≤ 'Z'.val) ||
    (decide (c.val ≥ 'a'.val) && decide (c.val ≤ 'z'.val))) = true at h
  rw [Bool.or_eq_true, Bool.and_eq_true, decide_eq_true_eq, decide_eq_true_eq,
    decide_eq_true_eq] at h
  refine decide_eq_true ?_
  rcases h with ⟨-, h⟩ | ⟨-, h⟩
  · exact Nat.lt_of_le_of_lt (UInt32.le_iff_toNat_le.1 h) (by decide)
  · exact Nat.lt_of_le_of_lt (UInt32.le_iff_toNat_le.1 h) (by decide)

theorem isAscii_of_isNameChar {c : Char} (h : isNameChar c = true) :
    Identifier.isAscii c = true := by
  simp only [isNameChar, Text.References.isWordChar, Char.isAlphanum, Bool.or_eq_true,
    beq_iff_eq] at h
  rcases h with (((h | h) | rfl) | rfl) | rfl
  · exact isAscii_of_isAlpha h
  · exact decide_eq_true (Nat.lt_of_le_of_lt (Char.isDigit_iff_toNat.1 h).2 (by decide))
  · decide
  · decide
  · decide

theorem lexFrom_part {part rest : List Char} (hpart : Part part) (hrest : Dotted rest)
    (last : Option Char) (gap : List Char) :
    ∃ t us, (lexFrom d last gap (part ++ rest)).1 = t :: us ∧
      (t.isName = true → IsReadable d t ∧ ∃ last, us = (lexFrom d last [] rest).1) := by
  have hnext {c : Char} (hgap : isGap c = false) (hdot : c ≠ '.') : rest.head? ≠ some c := by
    intro hc
    rcases hrest.head?_spec c hc with h | h
    · rw [hgap] at h
      cases h
    · exact hdot h
  cases hpart with
  | @word c w hc hw =>
      have hstart : isWordStart c = true := by
        rw [isWordStart, Bool.or_eq_true]
        exact .inl hc
      have hword : ((w ++ rest).takeWhile isWordChar).length = w.length := by
        rw [List.takeWhile_append_of_pos]
        · have hnil : rest.takeWhile isWordChar = [] := by
            cases rest with
            | nil => rfl
            | cons e rest =>
                rw [List.takeWhile_cons_of_neg]
                rcases hrest.head?_spec e rfl with hgap | rfl
                · simp only [isGap, Bool.or_eq_true, beq_iff_eq] at hgap
                  rcases hgap with ((((rfl | rfl) | rfl) | rfl) | rfl) | rfl <;> decide
                · decide
          rw [hnil, List.append_nil]
        · exact fun x hx => isWordChar_of_isNameChar (hw x hx)
      have hquote : (w ++ rest).head? ≠ some '\'' := by
        cases w with
        | nil => exact hnext (by decide) (by decide)
        | cons e w =>
            intro he
            obtain rfl : e = '\'' := Option.some.inj he
            exact absurd (hw _ List.mem_cons_self) (by decide)
      have hhead : head d last c (w ++ rest) = (some .word, w.length) := by
        rcases head_of_isWordStart (d := d) hstart last (w ++ rest) with ⟨-, h⟩ | h
        · exact absurd h hquote
        · rw [h, hword]
      refine ⟨_, _, lexFrom_token hhead, fun _ => ⟨isReadable_of_ascii ?_, _, rfl⟩⟩
      intro e he
      rcases List.mem_cons.1 he with rfl | he
      · rcases Bool.or_eq_true_iff.1 hc with h | h
        · exact isAscii_of_isAlpha h
        · rw [beq_iff_eq.1 h]
          rfl
      · exact isAscii_of_isNameChar (hw e he)
  | @quoted q body hq hbody =>
      have hmarks : Marks d last q q false := by
        rcases hq with rfl | rfl
        · exact .double
        · exact .backtick
      have hne : rest.head? ≠ some q := by
        rcases hq with rfl | rfl <;> exact hnext (by decide) (by decide)
      obtain ⟨kind, hlex⟩ := lexFrom_quoted hmarks hbody hne gap
      refine ⟨_, _, hlex, fun _ => ⟨isReadable_of_marks rfl ?_ ?_ ?_ ?_, _, rfl⟩⟩ <;>
        rcases hq with rfl | rfl <;> decide
  | @bracketed body hbody =>
      by_cases hd : d.bracketIdentifiers = true
      · have hmarks : Marks d last '[' ']' false := .bracket hd
        obtain ⟨kind, hlex⟩ := lexFrom_quoted hmarks hbody (hnext (by decide) (by decide)) gap
        exact ⟨_, _, hlex, fun _ => ⟨isReadable_of_marks rfl (by decide) (by decide) (by decide)
          (by decide), _, rfl⟩⟩
      · have hhead : head d last '[' ([] ++ (body ++ [']'] ++ rest)) = (some .symbol, 0) := by
          rw [head, not_pair (by decide)]
          simp [Text.isBlank, hd, isWordStart]
        refine ⟨_, _, lexFrom_symbol hhead, fun hname => ?_⟩
        cases hname

theorem not_isDigit_of_part {blanks part : List Char} (hblanks : ∀ c ∈ blanks, isGap c = true)
    (hpart : Part part) (rest : List Char) :
    ∀ c ∈ (blanks ++ (part ++ rest)).head?, c.isDigit = false := by
  intro c hc
  cases blanks with
  | nil =>
      cases hpart with
      | word hstart =>
          obtain rfl := Option.some.inj hc
          refine not_isDigit_of_isWordStart ?_
          rw [isWordStart, Bool.or_eq_true]
          exact .inl hstart
      | quoted hq =>
          obtain rfl := Option.some.inj hc
          rcases hq with rfl | rfl <;> decide
      | bracketed =>
          obtain rfl := Option.some.inj hc
          decide
  | cons e blanks =>
      obtain rfl := Option.some.inj hc
      have hgap := hblanks e List.mem_cons_self
      simp only [isGap, Bool.or_eq_true, beq_iff_eq] at hgap
      rcases hgap with ((((rfl | rfl) | rfl) | rfl) | rfl) | rfl <;> decide

theorem lexFrom_dot {rest : List Char} (h : ∀ c ∈ rest.head?, c.isDigit = false) :
    (lexFrom d last gap ('.' :: rest)).1 =
      ⟨.symbol, gap.reverse, ['.']⟩ :: (lexFrom d (some '.') [] rest).1 := by
  have hdigit : (rest.head?.map Char.isDigit).getD false = false := by
    cases hc : rest.head? with
    | none => rfl
    | some c => exact h c hc
  have hhead : head d last '.' ([] ++ rest) = (some .symbol, 0) := by
    rw [head, not_pair (by decide)]
    simp [Text.isBlank, hdigit, isWordStart]
  exact lexFrom_symbol hhead

end Token

namespace Reader

open Text.References

variable {d : Dialect} {α β : Type}

theorem bind_apply (p : Reader α) (f : α → Reader β) (ts : List Token) :
    (p >>= f) d ts = match p d ts with
      | .error e => .error e
      | .ok (none, rest) => .ok (none, rest)
      | .ok (some a, rest) => f a d rest :=
  rfl

theorem pure_apply (a : α) (ts : List Token) : (pure a : Reader α) d ts = .ok (some a, ts) :=
  rfl

theorem identifier_of_not_isName {t : Token} (h : t.isName = false) (ts : List Token) :
    identifier d (t :: ts) = .ok (none, t :: ts) := by
  simp only [identifier, h, Bool.false_eq_true, if_false]

theorem identifier_of_isReadable {t : Token} (hname : t.isName = true) (h : t.IsReadable d)
    (ts : List Token) : ∃ name, identifier d (t :: ts) = .ok (some name, ts) := by
  obtain ⟨name, hread⟩ := h hname
  refine ⟨name, ?_⟩
  simp only [identifier, hname, hread, if_true]

theorem moreParts_of_not_dot {ts : List Token} (h : atSymbol "." ts = false)
    (parts : List String) : moreParts parts d ts = .ok (some parts, ts) := by
  rw [moreParts, iterate]
  simp only [bind_apply, pure_apply, symbol, h, Bool.false_eq_true, if_false]

theorem moreParts_of_dot {t : Token} (h : t.isSymbol "." = true) {ts rest : List Token}
    (hpart : identifier d ts = .ok (none, rest)) (parts : List String) :
    moreParts parts d (t :: ts) = .ok (some parts, rest) := by
  have hat : atSymbol "." (t :: ts) = true := h
  rw [moreParts, iterate]
  simp only [bind_apply, pure_apply, symbol, hat, if_true, optional, List.tail_cons, hpart]

theorem moreParts_of_part {t u : Token} (h : t.isSymbol "." = true) {ts : List Token}
    {name : String} (hpart : identifier d (u :: ts) = .ok (some name, ts)) (parts : List String) :
    moreParts parts d (t :: u :: ts) = moreParts (parts ++ [name]) d ts := by
  have hat : atSymbol "." (t :: u :: ts) = true := h
  rw [moreParts, iterate]
  simp only [bind_apply, pure_apply, symbol, hat, if_true, optional, List.tail_cons, hpart]
  exact if_pos (Nat.lt_of_lt_of_le (Nat.lt_succ_self _) (Nat.le_succ _))

/-- The parts after the first are read without a fault. -/
theorem moreParts_of_dotted {rest : List Char} (h : Dotted rest) (last : Option Char)
    (gap : List Char) (parts : List String) :
    ∃ x, moreParts parts d (Token.lexFrom d last gap rest).1 = .ok x := by
  induction h generalizing last gap parts with
  | nil =>
      rw [Token.lexFrom, moreParts_of_not_dot rfl]
      exact ⟨_, rfl⟩
  | @part blanks blanks' part rest hblanks hblanks' hpart h ih =>
      have hdigit := Token.not_isDigit_of_part hblanks' hpart rest
      rcases Token.lexFrom_gap (d := d) hblanks ('.' :: (blanks' ++ (part ++ rest))) last gap
        with ⟨last, gap, hlex⟩ | ⟨t, us, hlex, -, htab⟩
      · rw [hlex, Token.lexFrom_dot hdigit]
        rcases Token.lexFrom_gap (d := d) hblanks' (part ++ rest) (some '.') []
          with ⟨last, gap, hlex⟩ | ⟨t, us, hlex, hkind, -⟩
        · obtain ⟨t, us, hpart, hname⟩ := Token.lexFrom_part (d := d) hpart h last gap
          rw [hlex, hpart]
          by_cases ht : t.isName = true
          · obtain ⟨hread, last, rfl⟩ := hname ht
            obtain ⟨name, hid⟩ := identifier_of_isReadable ht hread (Token.lexFrom d last [] rest).1
            rw [moreParts_of_part rfl hid]
            exact ih _ _ _
          · rw [moreParts_of_dot rfl (identifier_of_not_isName (Bool.eq_false_iff.2 ht) us)]
            exact ⟨_, rfl⟩
        · have ht : t.isName = false := by simp [Token.isName, hkind]
          rw [hlex, moreParts_of_dot rfl (identifier_of_not_isName ht us)]
          exact ⟨_, rfl⟩
      · have hdot : atSymbol "." (t :: us) = false := by
          simp [atSymbol, headIs, Token.isSymbol, htab]
        rw [hlex, moreParts_of_not_dot hdot]
        exact ⟨_, rfl⟩

theorem qualifiedName_of_part {part rest : List Char} (hpart : Part part) (hrest : Dotted rest) :
    ∃ x, qualifiedName d (Token.lex d (part ++ rest)) = .ok x := by
  obtain ⟨t, us, hlex, hname⟩ := Token.lexFrom_part (d := d) hpart hrest none []
  rw [Token.lex, hlex, qualifiedName, bind_apply]
  by_cases ht : t.isName = true
  · obtain ⟨hread, last, rfl⟩ := hname ht
    obtain ⟨name, hid⟩ := identifier_of_isReadable ht hread (Token.lexFrom d last [] rest).1
    obtain ⟨⟨parts, after⟩, hmore⟩ := moreParts_of_dotted (d := d) hrest last [] [name]
    rw [hid]
    dsimp only
    rw [bind_apply, hmore]
    cases parts with
    | none => exact ⟨_, rfl⟩
    | some parts =>
        change ∃ x, ofOption (qualify d parts) d after = .ok x
        cases qualify d parts <;> exact ⟨_, rfl⟩
  · rw [identifier_of_not_isName (Bool.eq_false_iff.2 ht) us]
    exact ⟨_, rfl⟩

end Reader

namespace Grammar

open Reader Text.References

variable {d : Dialect}

theorem run?_reference {part rest : List Char} (hpart : Part part) (hrest : Dotted rest) :
    ∃ found, run? reference d (part ++ rest) = .ok found := by
  obtain ⟨x, hx⟩ := qualifiedName_of_part (d := d) hpart hrest
  have hreference : ∃ x, reference d (Token.lex d (part ++ rest)) = .ok x := by
    rw [reference, bind_apply, peekUpper, peek]
    dsimp only
    cases upperWord? (Token.lex d (part ++ rest)) with
    | none => exact ⟨x, hx⟩
    | some word =>
        dsimp only
        split
        · exact ⟨_, rfl⟩
        · exact ⟨x, hx⟩
  obtain ⟨y, hy⟩ := hreference
  rw [run?, hy]
  exact ⟨y.1, rfl⟩

theorem viewReferences_ok (view : QualifiedName) (s : List Char) :
    ∃ found, viewReferences d view (names s) = .ok found := by
  have hparts : ∀ name ∈ names s, ∃ found, run? reference d name = .ok found := by
    intro name hname
    obtain ⟨part, rest, rfl, hpart, hrest⟩ := exists_part_of_mem_namesFrom hname
    exact run?_reference hpart hrest
  generalize names s = found at hparts
  induction found with
  | nil => exact ⟨[], rfl⟩
  | cons name found ih =>
      obtain ⟨others, hothers⟩ := ih (fun n hn => hparts n (List.mem_cons_of_mem _ hn))
      obtain ⟨q, hq⟩ := hparts name List.mem_cons_self
      rw [viewReferences, hq, hothers]
      cases q with
      | none => exact ⟨_, rfl⟩
      | some q =>
          by_cases hview : q = view
          · exact ⟨others, if_pos hview⟩
          · exact ⟨_, if_neg hview⟩

end Grammar

end SchemaDrift
