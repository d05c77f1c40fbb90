import SchemaDrift.Grammar.Raw
import SchemaDrift.Proofs.Outcomes
import SchemaDrift.Proofs.Taking

namespace SchemaDrift

namespace Text

theorem toNat_ofNat_or (n : Nat) : (Char.ofNat n).toNat = n ∨ (Char.ofNat n).toNat = 0 := by
  by_cases h : n.isValidChar
  · exact .inl (congrArg Char.toNat (dif_pos h))
  · exact .inr (congrArg Char.toNat (dif_neg h))

/-- Every run begins outside ASCII and stays there, or moves one character to none of the
letters. -/
def avoids (letters : List Char) (runs : List CaseTable.Run) : Bool :=
  runs.all fun r => 128 ≤ (r.first : Int) + r.shift ||
    (r.first == r.last && !letters.contains (Char.ofNat ((r.first : Int) + r.shift).toNat))

def plainAscii (letters : List Char) : Bool := letters.all fun e => 0 < e.toNat && e.toNat < 128

theorem moved_not_mem {letters : List Char} {runs : List CaseTable.Run}
    (hruns : avoids letters runs = true) (hplain : plainAscii letters = true) {c : Char}
    (hc : 128 ≤ c.toNat) : ((CaseTable.moved runs c.toNat).map Char.ofNat).getD c ∉ letters := by
  have hsmall {e : Char} (he : e ∈ letters) : 0 < e.toNat ∧ e.toNat < 128 := by
    have h := List.all_eq_true.1 hplain e he
    rwa [Bool.and_eq_true, decide_eq_true_eq, decide_eq_true_eq] at h
  unfold CaseTable.moved
  cases hfind : runs.find? (·.holds c.toNat) with
  | none =>
      intro hmem
      exact absurd (hsmall hmem).2 (Nat.not_lt.2 hc)
  | some r =>
      have hholds := List.find?_some hfind
      have hr := List.all_eq_true.1 hruns r (List.mem_of_find?_eq_some hfind)
      simp only [CaseTable.Run.holds, Bool.and_eq_true, decide_eq_true_eq] at hholds
      obtain ⟨⟨hfirst, hlast⟩, -⟩ := hholds
      simp only [Option.map_some, Option.getD_some]
      rw [Bool.or_eq_true, decide_eq_true_eq, Bool.and_eq_true, beq_iff_eq, Bool.not_eq_true',
        ← Bool.not_eq_true, List.contains_iff_mem] at hr
      rcases hr with hfar | ⟨hone, hnot⟩
      · intro hmem
        obtain ⟨hpos, hlt⟩ := hsmall hmem
        have hnat := toNat_ofNat_or ((c.toNat : Int) + r.shift).toNat
        omega
      · have hfirst : c.toNat = r.first := by omega
        rw [hfirst]
        exact hnot

theorem mem_of_lookup {table : List (Nat × List Nat)} {n : Nat} {codes : List Nat}
    (h : table.lookup n = some codes) : (n, codes) ∈ table := by
  induction table with
  | nil => cases h
  | cons e table ih =>
      rw [List.lookup_cons] at h
      split at h
      · next hn =>
          obtain rfl := beq_iff_eq.1 hn
          obtain rfl := Option.some.inj h
          exact List.mem_cons_self
      · exact List.mem_cons_of_mem e (ih h)

/-- No character beyond ASCII has a capital that is made of these letters only. -/
theorem exists_mem_upperChar {c : Char} (hc : 128 ≤ c.toNat) :
    ∃ e ∈ upperChar c, e ∉ "ALTER".toList := by
  have hlong : CaseTable.upperLong.all (fun p =>
      p.2.any fun n => !"ALTER".toList.contains (Char.ofNat n)) = true := by decide +kernel
  rw [upperChar, if_neg (Nat.not_lt.2 hc)]
  split
  · next codes hcodes =>
      obtain ⟨n, hn, hnot⟩ := List.any_eq_true.1 (List.all_eq_true.1 hlong _ (mem_of_lookup hcodes))
      refine ⟨Char.ofNat n, List.mem_map_of_mem hn, ?_⟩
      simpa using hnot
  · refine ⟨_, List.mem_singleton_self _, ?_⟩
    exact moved_not_mem (by decide +kernel) (by decide) hc

/-- No capital begins with a small letter a. -/
theorem head?_upperChar (c : Char) : (upperChar c).head? ≠ some 'a' := by
  have hlong : CaseTable.upperLong.all (fun p => (p.2.map Char.ofNat).head? != some 'a') =
      true := by
    decide +kernel
  unfold upperChar
  split
  · next hc =>
      have hascii : ∀ n < 128, [(Char.ofNat n).toUpper].head? ≠ some 'a' := by decide
      have h := hascii c.toNat hc
      rwa [Char.ofNat_toNat] at h
  · next hc =>
      split
      · next codes hcodes =>
          exact bne_iff_ne.1 (List.all_eq_true.1 hlong _ (mem_of_lookup hcodes))
      · intro h
        refine @moved_not_mem ['a'] CaseTable.upperRuns (by decide +kernel) (by decide) _
          (Nat.not_lt.1 hc) ?_
        rw [Option.some.inj h]
        exact List.mem_singleton_self _

theorem head?_upper (s : List Char) : (upper s).head? ≠ some 'a' := by
  induction s with
  | nil => exact nofun
  | cons c s ih =>
      rw [upper, List.flatMap_cons, List.head?_append]
      cases h : (upperChar c).head? with
      | none => exact ih
      | some e =>
          rw [Option.some_or, ← h]
          exact head?_upperChar c

def breaks : List Char := " ),.(:][".toList

/-- The small letters of a character beyond ASCII are of no word that is looked for. -/
theorem lowerChar_cons {c : Char} (hc : 128 ≤ c.toNat) :
    (∃ e es, lowerChar c = e :: es ∧ e ∉ "alter".toList) ∧ ∀ e ∈ lowerChar c, e ∉ breaks := by
  have hlong : CaseTable.lowerLong.all (fun p =>
      (p.2.map Char.ofNat).head?.any (fun e => !"alter".toList.contains e) &&
        p.2.all fun n => !breaks.contains (Char.ofNat n)) = true := by decide +kernel
  rw [lowerChar, if_neg (Nat.not_lt.2 hc)]
  split
  · next codes hcodes =>
      have h := List.all_eq_true.1 hlong _ (mem_of_lookup hcodes)
      rw [Bool.and_eq_true] at h
      obtain ⟨hhead, hall⟩ := h
      constructor
      · cases codes with
        | nil => cases hhead
        | cons n codes => exact ⟨_, _, rfl, by simpa using hhead⟩
      · intro e he
        obtain ⟨n, hn, rfl⟩ := List.mem_map.1 he
        simpa using List.all_eq_true.1 hall n hn
  · constructor
    · exact ⟨_, _, rfl, moved_not_mem (by decide +kernel) (by decide) hc⟩
    · intro e he
      rw [List.mem_singleton.1 he]
      exact moved_not_mem (by decide +kernel) (by decide) hc

theorem upper_eq_of_lowerFrom {before w u : List Char} (h : lowerFrom before w = u)
    (hu : ∀ e ∈ u, e ∈ "alter".toList) : upper w = u.map Char.toUpper := by
  induction w generalizing before u with
  | nil =>
      subst h
      rfl
  | cons c w ih =>
      rw [lowerFrom] at h
      have hsigma : (c == 'Σ') = false := by
        rw [Bool.eq_false_iff]
        intro hc
        rw [if_pos hc] at h
        have hfirst := hu (if meetsCased before && !meetsCased w then 'ς' else 'σ') (h ▸ by simp)
        split at hfirst
        · exact absurd hfirst (by decide)
        · exact absurd hfirst (by decide)
      rw [hsigma, if_neg Bool.false_ne_true] at h
      by_cases hc : c.toNat < 128
      · rw [lowerChar, if_pos hc] at h
        subst h
        have hcase : ∀ n < 128, (Char.ofNat n).toLower.toUpper = (Char.ofNat n).toUpper := by decide
        have hsame := hcase c.toNat hc
        rw [Char.ofNat_toNat] at hsame
        rw [upper, List.flatMap_cons, upperChar, if_pos hc, List.singleton_append,
          List.singleton_append, List.map_cons, hsame]
        exact congrArg _ (ih rfl fun e he => hu e (List.mem_cons_of_mem _ he))
      · obtain ⟨⟨e, es, hlower, hnot⟩, -⟩ := lowerChar_cons (Nat.not_lt.1 hc)
        rw [hlower] at h
        exact absurd (hu e (h ▸ List.mem_cons_self)) hnot

theorem lowerFrom_eq_of_upper {before w u : List Char} (h : upper w = u)
    (hu : ∀ e ∈ u, e ∈ "ALTER".toList) : lowerFrom before w = u.map Char.toLower := by
  induction w generalizing before u with
  | nil =>
      subst h
      rfl
  | cons c w ih =>
      rw [upper, List.flatMap_cons] at h
      by_cases hc : c.toNat < 128
      · have hsigma : (c == 'Σ') = false := by
          rw [Bool.eq_false_iff]
          intro hsigma
          rw [beq_iff_eq.1 hsigma] at hc
          exact absurd hc (by decide)
        have hcase : ∀ n < 128, (Char.ofNat n).toUpper.toLower = (Char.ofNat n).toLower := by decide
        have hsame := hcase c.toNat hc
        rw [Char.ofNat_toNat] at hsame
        rw [upperChar, if_pos hc] at h
        subst h
        rw [lowerFrom, hsigma, if_neg Bool.false_ne_true, lowerChar, if_pos hc,
          List.singleton_append, List.singleton_append, List.map_cons, hsame]
        exact congrArg _ (ih rfl fun e he => hu e (List.mem_cons_of_mem _ he))
      · obtain ⟨e, he, hnot⟩ := exists_mem_upperChar (Nat.not_lt.1 hc)
        exact absurd (hu e (h ▸ List.mem_append_left _ he)) hnot

theorem upper_eq_alter_iff (w : List Char) :
    upper w = "ALTER".toList ↔ lower w = "alter".toList := by
  constructor
  · intro h
    exact lowerFrom_eq_of_upper h fun e he => he
  · intro h
    exact upper_eq_of_lowerFrom h fun e he => he

theorem not_mem_breaks_of_lowerFrom {before w : List Char}
    (hw : ∀ c ∈ w, Token.isWordChar c = true) : ∀ e ∈ lowerFrom before w, e ∉ breaks := by
  induction w generalizing before with
  | nil => exact fun e he => nomatch he
  | cons c w ih =>
      intro e he
      rw [lowerFrom] at he
      rcases List.mem_append.1 he with he | he
      · split at he
        · rw [List.mem_singleton] at he
          subst he
          split <;> decide
        by_cases hc : c.toNat < 128
        · have hascii : ∀ n < 128, Token.isWordChar (Char.ofNat n) = true →
              (Char.ofNat n).toLower ∉ breaks := by decide
          rw [lowerChar, if_pos hc, List.mem_singleton] at he
          have h := hascii c.toNat hc
          rw [Char.ofNat_toNat] at h
          exact he ▸ h (hw c List.mem_cons_self)
        · exact (lowerChar_cons (Nat.not_lt.1 hc)).2 e he
      · exact ih (fun e he => hw e (List.mem_cons_of_mem c he)) e he

end Text

namespace Token

variable {d : Dialect} {s s' : List Char} {t : Token} {ts : List Token}

/-- A word is followed by nothing, by a blank, or by a symbol that stands close to it. -/
theorem renderAfter_of_isWord (ht : t.isWord = true) (ts : List Token) :
    renderAfter t ts = [] ∨ ∃ c rest, renderAfter t ts = c :: rest ∧ c ∈ Text.breaks := by
  cases ts with
  | nil => exact .inl rfl
  | cons u us =>
      right
      rw [renderAfter]
      by_cases htight : tight t u = true
      · have hkind : (t.kind == .symbol) = false := by
          rw [beq_iff_eq.1 ht]
          rfl
        rw [tight, hkind, Bool.false_and, Bool.or_false, Bool.and_eq_true, beq_iff_eq] at htight
        obtain ⟨hsymbol, hbefore⟩ := htight
        have hword : u.isWord = false := by
          rw [isWord, hsymbol]
          rfl
        have hclose : ∀ symbol ∈ [")", ",", ".", "(", "::", "]", "["],
            ∃ c rest, symbol.toList = c :: rest ∧ c ∈ Text.breaks := by
          intro symbol hmem
          simp only [List.mem_cons, List.not_mem_nil, or_false] at hmem
          rcases hmem with rfl | rfl | rfl | rfl | rfl | rfl | rfl
          all_goals exact ⟨_, _, rfl, by decide⟩
        obtain ⟨symbol, hmem, htext⟩ := List.any_eq_true.1 hbefore
        obtain ⟨c, rest, hlist, hc⟩ := hclose symbol hmem
        have htext : u.text = c :: rest := (beq_iff_eq.1 htext).symm.trans hlist
        have hpiece : u.piece = u.text := by
          rw [piece, hword, if_neg Bool.false_ne_true]
        have hnone : (if tight t u = true then [] else [' ']) = ([] : List Char) := by
          rw [tight, hkind, Bool.false_and, Bool.or_false, hsymbol, hbefore]
          rfl
        rw [hnone, List.nil_append, hpiece, htext]
        exact ⟨c, rest ++ renderAfter u us, rfl, hc⟩
      · rw [if_neg htight]
        exact ⟨' ', u.piece ++ renderAfter u us, rfl, by decide⟩

/-- The first word of a text can be told from its canonical text. -/
theorem takeWhile_canonical (hlex : lex d s = t :: ts) (ht : t.isWord = true) :
    (canonical d s).takeWhile (fun c => !Text.breaks.contains c) = Text.lower t.text := by
  have hsource : Lexes d none [] s (t :: ts) (lexFrom d none [] s).2 := hlex ▸ lexes_lex d s
  obtain ⟨last, c, body, rest, htext, hhead⟩ := hsource.of_mem List.mem_cons_self
  have hchars : ∀ e ∈ t.text, isWordChar e = true := by
    rw [beq_iff_eq.1 ht] at hhead
    obtain ⟨hstart, hsize⟩ := isWordStart_of_head hhead
    have hbody : body = (body ++ rest).takeWhile isWordChar := by
      have htake := List.prefix_iff_eq_take.1 (List.takeWhile_prefix isWordChar (l := body ++ rest))
      rw [← hsize, List.take_left] at htake
      exact htake.symm
    rw [htext]
    intro e he
    rcases List.mem_cons.1 he with rfl | he
    · exact isWordChar_of_isWordStart hstart
    · rw [hbody] at he
      exact List.mem_takeWhile_imp he
  have hno : ∀ e ∈ Text.lower t.text, (!Text.breaks.contains e) = true := by
    intro e he
    simpa using Text.not_mem_breaks_of_lowerFrom hchars e he
  rw [canonical, hlex, render, piece, if_pos ht, List.takeWhile_append_of_pos hno]
  rcases renderAfter_of_isWord ht ts with hnil | ⟨e, rest, hrest, he⟩
  · rw [hnil, List.takeWhile_nil, List.append_nil]
  · rw [hrest, List.takeWhile_cons_of_neg (by simpa using he), List.append_nil]

/-- A text that does not begin with a word does not begin with a letter. -/
theorem head?_canonical_of_not_isWord (hlex : lex d s = t :: ts) (ht : t.isWord = false) :
    (canonical d s).head? ≠ some 'a' := by
  have hsource : Lexes d none [] s (t :: ts) (lexFrom d none [] s).2 := hlex ▸ lexes_lex d s
  obtain ⟨last, c, body, rest, htext, hhead⟩ := hsource.of_mem List.mem_cons_self
  rw [canonical, hlex, render, piece, ht, if_neg Bool.false_ne_true, htext, List.cons_append,
    List.head?_cons]
  intro hc
  rw [Option.some.inj hc] at hhead
  rcases head_of_isWordStart (d := d) (c := 'a') (by decide) last (body ++ rest) with
    ⟨hskip, -⟩ | hword
  · rw [hskip] at hhead
    cases hhead
  · rw [hword] at hhead
    have hkind : t.kind = .word := (Option.some.inj (Prod.mk.inj hhead).1).symm
    rw [isWord, hkind] at ht
    cases ht

theorem takeWhile_canonical_of_alter (h : Reader.upperWord? (lex d s) = some "ALTER") :
    (canonical d s).takeWhile (fun c => !Text.breaks.contains c) = "alter".toList := by
  cases hlex : lex d s with
  | nil =>
      rw [hlex] at h
      cases h
  | cons t ts =>
      rw [hlex, Reader.upperWord?] at h
      split at h
      · next ht =>
          have hupper : Text.upper t.text = "ALTER".toList := by
            rw [← Option.some.inj h, String.toList_ofList]
          rw [takeWhile_canonical hlex ht]
          exact (Text.upper_eq_alter_iff t.text).1 hupper
      · cases h

theorem head?_canonical_of_alter (h : Reader.upperWord? (lex d s) = some "ALTER") :
    (canonical d s).head? = some 'a' := by
  have hfirst := takeWhile_canonical_of_alter h
  cases hcanonical : canonical d s with
  | nil =>
      rw [hcanonical] at hfirst
      cases hfirst
  | cons c cs =>
      rw [hcanonical, List.takeWhile_cons] at hfirst
      split at hfirst
      · exact congrArg some (List.cons.inj hfirst).1
      · cases hfirst

/-- Texts that are canonically the same begin with the same word, if one of them with `ALTER`. -/
theorem upperWord?_of_canonical_eq (h : Reader.upperWord? (lex d s) = some "ALTER")
    (heq : canonical d s' = canonical d s) : Reader.upperWord? (lex d s') = some "ALTER" := by
  have hfirst := takeWhile_canonical_of_alter h
  have hhead := head?_canonical_of_alter h
  rw [← heq] at hfirst hhead
  cases hlex : lex d s' with
  | nil =>
      rw [canonical, hlex] at hhead
      cases hhead
  | cons t ts =>
      by_cases ht : t.isWord = true
      · rw [takeWhile_canonical hlex ht] at hfirst
        rw [Reader.upperWord?, if_pos ht, (Text.upper_eq_alter_iff t.text).2 hfirst,
          String.ofList_toList]
      · exact absurd hhead (head?_canonical_of_not_isWord hlex (Bool.eq_false_iff.2 ht))

end Token

namespace Grammar

open Reader

variable {d : Dialect} {s s' : List Char} {raw raw' : RawStatement}

theorem yields_upperWord : Yields (fun w => w.toList.head? ≠ some 'a') upperWord := by
  have hpeek : Yields (fun w => ∀ v ∈ w, (String.toList v).head? ≠ some 'a') peekUpper := by
    intro d ts rest w h v hv
    cases h
    cases ts with
    | nil => cases hv
    | cons t ts =>
        rw [upperWord?] at hv
        split at hv
        · rw [← Option.some.inj hv, String.toList_ofList]
          exact Text.head?_upper t.text
        · cases hv
  refine hpeek.bind fun w hw => ?_
  cases w with
  | none => exact .failed
  | some w =>
      have hfound : Yields (fun v => v.toList.head? ≠ some 'a') (ofOption (some w)) :=
        .pure (hw w rfl)
      exact hfound.bind fun v hv => .after fun _ => .pure hv

/-- What is created stands in capitals. -/
theorem yields_createLabel : Yields (fun l => l.toList.head? ≠ some 'a') createLabel := by
  have happend {a b : String} (ha : a.toList.head? ≠ some 'a') (hb : b.toList.head? ≠ some 'a') :
      (a ++ b).toList.head? ≠ some 'a' := by
    rw [String.toList_append, List.head?_append]
    cases h : a.toList.head? with
    | none => exact hb
    | some c =>
        rw [h] at ha
        exact ha
  have hblank (l : String) : (" " ++ l).toList.head? ≠ some 'a' := by
    rw [String.toList_append]
    exact fun h => absurd (Option.some.inj h) (by decide)
  have htype : Yields (fun l => l.toList.head? ≠ some 'a') objectType := by
    refine yields_upperWord.bind fun first hfirst => .ite (.after fun second => ?_) (.pure hfirst)
    cases second with
    | none => exact .pure hfirst
    | some second =>
        refine .pure ?_
        rw [String.append_assoc]
        exact happend hfirst (hblank second)
  refine .after fun _ => .after fun _ => htype.bind fun type hl => .after fun _ => ?_
  refine .after fun name => .pure ?_
  rw [String.append_assoc]
  exact happend hl (hblank name.text)

/-- What a statement is kept as: its text, labelled with what it creates or else with the text. -/
theorem rawStatement_eq_ok (h : rawStatement d s = .ok raw) :
    ∃ label : Option String, (∀ l ∈ label, l.toList.head? ≠ some 'a') ∧
      raw = ⟨.unqualified (label.getD (canonicalSql d s)), (upperWord? (Token.lex d s)).getD "",
        canonicalSql d s⟩ ∧ (label.isSome → (upperWord? (Token.lex d s)).getD "" = "CREATE") := by
  unfold rawStatement at h
  dsimp only at h
  split at h
  · next hverb =>
      obtain ⟨label, hread, h⟩ := Outcome.bind_eq_ok.1 h
      cases h
      refine ⟨label, fun l hl => ?_, rfl, fun _ => hverb⟩
      obtain ⟨⟨found, rest⟩, hread, hfound⟩ := Outcome.exists_of_map hread
      obtain rfl : found = some l := hfound.trans hl
      exact yields_createLabel _ _ _ _ hread
  · cases h
    refine ⟨none, fun l hl => ?_, rfl, fun hsome => ?_⟩
    · cases hl
    · cases hsome

/-- An `ALTER` that is kept as text shares its label only with what is the same as it. -/
theorem rawStatement_unique (h : rawStatement d s = .ok raw) (h' : rawStatement d s' = .ok raw')
    (halter : raw.verb = "ALTER") (hlabel : raw'.label = raw.label) : raw' = raw := by
  obtain ⟨label, -, rfl, hcreate⟩ := rawStatement_eq_ok h
  obtain ⟨label', hcapital, rfl, -⟩ := rawStatement_eq_ok h'
  have hverb : (upperWord? (Token.lex d s)).getD "" = "ALTER" := halter
  have hword : upperWord? (Token.lex d s) = some "ALTER" := by
    cases hw : upperWord? (Token.lex d s) with
    | none =>
        rw [hw] at hverb
        exact absurd hverb (by decide)
    | some w =>
        rw [hw] at hverb
        exact congrArg some hverb
  cases label with
  | some l => exact absurd (hverb.symm.trans (hcreate rfl)) (by decide)
  | none =>
      have hname : label'.getD (canonicalSql d s') = canonicalSql d s :=
        congrArg QualifiedName.name hlabel
      cases label' with
      | none =>
          have heq : Token.canonical d s' = Token.canonical d s := String.ofList_injective hname
          rw [hword, Token.upperWord?_of_canonical_eq hword heq, canonicalSql, canonicalSql, heq]
      | some l =>
          -- What is created begins with a capital, and the text of an `ALTER` does not.
          refine absurd ?_ (hcapital l rfl)
          rw [show l = canonicalSql d s from hname, canonicalSql, String.toList_ofList]
          exact Token.head?_canonical_of_alter hword

end Grammar

end SchemaDrift
