import SchemaDrift.Proofs.Folded
import SchemaDrift.Proofs.Surroundings

namespace SchemaDrift.Token

variable {d : Dialect} {last : Option Char} {c b : Char} {cs t : List Char}

/-- Whether every run of a text ends within it when a blank follows. -/
def closedFrom (d : Dialect) (last : Option Char) (s : List Char) : Bool :=
  match s with
  | [] => true
  | c :: cs =>
      let n := (head d last c (cs ++ [' '])).2
      n ≤ cs.length && closedFrom d (c :: cs.take n).getLast? (cs.drop n)
termination_by s.length

def IsEdge (b : Char) : Prop := Text.isBreak b = true ∧ b ≠ '\n'

def IsStop (b : Char) : Prop := IsEdge b ∧ b ≠ ':'

theorem isEdge_blank : IsEdge ' ' := ⟨rfl, by decide⟩

theorem isStop_blank : IsStop ' ' := ⟨isEdge_blank, by decide⟩

theorem isStop_of_mem (hb : b ∈ [' ', ',', ')']) : IsStop b := by
  simp only [List.mem_cons, List.not_mem_nil, or_false] at hb
  rcases hb with rfl | rfl | rfl <;> exact ⟨⟨rfl, by decide⟩, by decide⟩

def seams : List Char := [' ', '\t', '\n', '\x0c', '\r', ',', ')', ':', '[']

theorem mem_seams_of_isBreak (hb : Text.isBreak b = true) : b ∈ seams := by
  simp only [Text.isBreak, Text.isBlank, Bool.or_eq_true, beq_iff_eq] at hb
  rcases hb with (((((((rfl | rfl) | rfl) | rfl) | rfl) | rfl) | rfl) | rfl) <;> decide

/-- What none of the seams has. -/
theorem eq_false_of_mem_seams (hb : b ∈ seams) {p : Char → Bool}
    (hp : seams.all (fun e => !p e) = true) : p b = false := by
  simpa using List.all_eq_true.1 hp b hb

theorem IsStop.mem_seams (hb : IsStop b) : b ∈ seams := mem_seams_of_isBreak hb.1.1

theorem ne_of_mem_seams {a : Char} (hb : b ∈ seams) (ha : a ∉ seams) : a ≠ b := by
  rintro rfl
  exact ha hb

theorem quotedSize_of_le (hb : b ∈ seams) (ht : Ends b t) {close : Char}
    (hclose : close ∉ seams) (hescape : close ≠ '\\') {backslash : Bool}
    {s : List Char} (h : quotedSize close backslash (s ++ [' ']) ≤ s.length) :
    quotedSize close backslash (s ++ t) = quotedSize close backslash (s ++ [' ']) := by
  unfold quotedSize at h ⊢
  cases hsize : Text.quotedSize close backslash (s ++ [' ']) with
  | some n =>
      rw [hsize, Option.getD_some] at h
      rw [(Ends.cons []).quotedSize_of_le ht (ne_of_mem_seams (by decide) hclose)
        (ne_of_mem_seams hb hclose) hescape hsize h]
      rfl
  | none =>
      rw [hsize, Option.getD_none, List.length_append] at h
      exact absurd h (Nat.not_succ_le_self _)

theorem commentSize_of_le {s : List Char} (h : commentSize (s ++ [' ']) ≤ s.length)
    (t : List Char) : commentSize (s ++ t) = commentSize (s ++ [' ']) := by
  unfold commentSize at h ⊢
  cases hsize : Text.indexOf? ['*', '/'] (s ++ [' ']) with
  | some n =>
      rw [hsize] at h
      rw [indexOf?_of_le (List.cons_ne_nil _ _) hsize h t]
  | none =>
      rw [hsize, List.length_append] at h
      exact absurd h (Nat.not_succ_le_self _)

theorem dollarSize_of_le (hb : b ∈ seams) (ht : Ends b t) {s : List Char}
    (h : (dollarSize (s ++ [' '])).2 ≤ s.length) :
    dollarSize (s ++ t) = dollarSize (s ++ [' ']) := by
  have htag (u : List Char) {e : Char} (he : e ∈ seams) (hu : Ends e u) :
      Text.dollarTagSize ('$' :: (s ++ u)) = Text.dollarTagSize ('$' :: s) :=
    hu.dollarTagSize_append (eq_false_of_mem_seams he (by decide)) '$' s
  unfold dollarSize at h ⊢
  rw [htag _ (by decide) (Ends.cons [])] at h
  rw [htag _ hb ht, htag _ (by decide) (Ends.cons [])]
  cases hsize : Text.dollarTagSize ('$' :: s) with
  | none =>
      dsimp only
      rw [ht.takeWhile_append (p := Char.isDigit) (eq_false_of_mem_seams hb (by decide)),
        (Ends.cons []).takeWhile_append (by decide)]
  | some n =>
      rw [hsize] at h
      dsimp only at h ⊢
      obtain ⟨tag, rest, hs, rfl, hopener⟩ := Text.dollarTagSize_eq_some_iff.1 hsize
      have hlen := congrArg List.length hs
      simp only [List.length_append, List.length_cons] at hlen
      simp only [← List.cons_append, hs, List.append_assoc, List.take_left,
        List.drop_left] at h ⊢
      cases hbody : Text.indexOf? tag (rest ++ [' ']) with
      | some n =>
          rw [hbody] at h
          dsimp only at h
          rw [indexOf?_of_le (ne_nil_of_isTag hopener) hbody (by omega) t]
      | none =>
          rw [hbody, List.length_append] at h
          exact absurd h (Nat.not_succ_le_self _)

/-- What a run may look for in the next character. -/
theorem map_head?_append {p : Char → Bool} (hp : p b = false) (ht : Ends b t) (cs : List Char) :
    ((cs ++ t).head?.map p).getD false = (cs.head?.map p).getD false := by
  cases cs with
  | nil =>
      cases ht with
      | nil => rfl
      | cons u => exact hp
  | cons a cs => rfl

/-- Only a colon before it makes one of the seams the end of a symbol. -/
theorem not_twoCharSymbol (hb : b ∈ seams) (hc : b = ':' → c ≠ ':') :
    twoCharSymbols.contains (c, b) = false := by
  have hmem : ∀ p ∈ twoCharSymbols, p.2 ∉ seams ∨ p = (':', ':') := by
    decide
  rw [List.contains_eq_mem, decide_eq_false_iff_not]
  intro hpair
  rcases hmem _ hpair with hother | heq
  · exact hother hb
  · obtain ⟨rfl, rfl⟩ := Prod.mk.inj heq
    exact hc rfl rfl

/-- What begins before a seam, or before the end, is what begins before a blank. -/
theorem opening_of_ends (d : Dialect) (hb : b ∈ seams) (ht : Ends b t)
    (hend : b = ':' → cs = [] → c ≠ ':') :
    Opening.of d c (cs ++ t).head? = Opening.of d c (cs ++ [' ']).head? := by
  have hblank : Ends ' ' [' '] := .cons []
  have hblankSeam : ' ' ∈ seams := by decide
  have hhead {a : Char} (ha : a ∉ seams) :
      ((cs ++ t).head? == some a) = ((cs ++ [' ']).head? == some a) := by
    rw [ht.head?_beq_append (ne_of_mem_seams hb ha),
      hblank.head?_beq_append (ne_of_mem_seams hblankSeam ha)]
  have hdigit : ((cs ++ t).head?.map Char.isDigit).getD false =
      ((cs ++ [' ']).head?.map Char.isDigit).getD false := by
    rw [map_head?_append (eq_false_of_mem_seams hb (by decide)) ht,
      map_head?_append (by decide) hblank]
  have hpair : ((cs ++ t).head?.map (fun e => twoCharSymbols.contains (c, e))).getD false =
      ((cs ++ [' ']).head?.map (fun e => twoCharSymbols.contains (c, e))).getD false := by
    cases cs with
    | nil =>
        cases ht with
        | nil => exact (not_twoCharSymbol hblankSeam nofun).symm
        | cons u =>
            exact (not_twoCharSymbol hb fun hcolon => hend hcolon rfl).trans
              (not_twoCharSymbol hblankSeam nofun).symm
    | cons a cs => rfl
  unfold Opening.of
  rw [hhead (by decide), hhead (by decide), hhead (by decide), hdigit, hpair]

theorem taken_of_le {o : Opening} (hb : b ∈ seams) (ht : Ends b t)
    (hfits : o.Fits d c (cs ++ [' ']).head?)
    (h : (o.taken d last c (cs ++ [' '])).2 ≤ cs.length) :
    o.taken d last c (cs ++ t) = o.taken d last c (cs ++ [' ']) := by
  have hblank : Ends ' ' [' '] := .cons []
  have htake {p : Char → Bool} (hp : seams.all (fun e => !p e) = true) :
      (cs ++ t).takeWhile p = (cs ++ [' ']).takeWhile p := by
    rw [ht.takeWhile_append (eq_false_of_mem_seams hb hp),
      hblank.takeWhile_append (eq_false_of_mem_seams (by decide) hp)]
  cases o with
  | blank | letter | pair | sign => rfl
  | line =>
      unfold Opening.taken Text.lineSize at h ⊢
      rw [hblank.takeWhile_of_le ht (fun h => absurd h (by decide)) (.inr (List.cons_ne_nil _ _)) h]
  | block =>
      cases cs with
      | nil => cases hfits.2
      | cons a cs =>
          exact congrArg (fun n => (none, n + 1))
            (commentSize_of_le (Nat.le_of_succ_le_succ h) t)
  | single | bracket => exact congrArg (Prod.mk _) (quotedSize_of_le hb ht (by decide) (by decide) h)
  | double =>
      have hclose : c ∉ seams ∧ c ≠ '\\' := by rcases hfits with rfl | rfl <;> decide
      exact congrArg (Prod.mk _) (quotedSize_of_le hb ht hclose.1 hclose.2 h)
  | dollar =>
      unfold Opening.taken
      rw [dollarSize_of_le hb ht h]
  | number =>
      unfold Opening.taken
      rw [htake (p := fun e => e.isAlphanum || e == '.') (by decide)]
  | word =>
      unfold Opening.taken
      rw [htake (p := isWordChar) (by decide)]

/-- A run that ends before a blank is the same before every seam, and at the end. -/
theorem head_of_le (hb : b ∈ seams) (ht : Ends b t) (hend : b = ':' → cs = [] → c ≠ ':')
    (h : (head d last c (cs ++ [' '])).2 ≤ cs.length) :
    head d last c (cs ++ t) = head d last c (cs ++ [' ']) := by
  rw [head_eq_taken] at h
  rw [head_eq_taken, head_eq_taken, opening_of_ends d hb ht hend]
  exact taken_of_le hb ht (Opening.fits_of d c _) h

def ungapped (t : Token) : Token := { t with gap := [] }

@[simp]
theorem isSymbol_ungapped (t : Token) (s : String) : t.ungapped.isSymbol s = t.isSymbol s := rfl

@[simp]
theorem isKeyword_ungapped (t : Token) (k : String) : t.ungapped.isKeyword k = t.isKeyword k := rfl

theorem map_folded_of_ungapped {ts us : List Token} (h : ts.map ungapped = us.map ungapped) :
    ts.map folded = us.map folded := by
  have hfolded (vs : List Token) : (vs.map ungapped).map folded = vs.map folded := by
    rw [List.map_map]
    rfl
  rw [← hfolded ts, h, hfolded]

/-- What is skipped before the tokens shows in the gap of the first only. -/
theorem map_ungapped_lexFrom (d : Dialect) (last : Option Char) (gap gap' s : List Char) :
    (lexFrom d last gap s).1.map ungapped = (lexFrom d last gap' s).1.map ungapped := by
  fun_induction lexFrom d last gap s generalizing gap' with
  | case1 => rw [lexFrom]
  | case2 last gap c cs run rest h ih =>
      rw [lexFrom.eq_def d last gap' (c :: cs)]
      simp only [h]
      exact ih _
  | case3 last gap c cs run rest kind h tokens trailing hrec ih =>
      rw [lexFrom.eq_def d last gap' (c :: cs)]
      simp only [h]
      have hrest : lexFrom d (c :: cs.take (head d last c cs).2).getLast? []
          (cs.drop (head d last c cs).2) = (tokens, trailing) := hrec
      rw [hrest]
      rfl

/-- The tokens of what follows a text, after a seam or at the end. -/
theorem map_ungapped_lexFrom_of_ends (hb : b ∈ seams) (ht : Ends b t) (last last' : Option Char)
    (gap gap' : List Char) :
    (lexFrom d last gap t).1.map ungapped = (lexFrom d last' gap' t).1.map ungapped := by
  rw [map_ungapped_lexFrom d last gap gap']
  cases ht with
  | nil => rw [lexFrom, lexFrom]
  | cons u =>
      rw [lexFrom, lexFrom]
      have hhead : head d last b u = head d last' b u :=
        head_congr_of_ne last' (ne_of_mem_seams hb (by decide)).symm u
      rw [hhead]

def EndsNoCast (ts : List Token) : Prop :=
  ∀ t ∈ (ts.map ungapped).getLast?, t.isSymbol ":" = false

theorem EndsNoCast.of_cons {u : Token} {ts : List Token} (h : EndsNoCast (u :: ts)) :
    EndsNoCast ts := by
  intro t ht
  refine h t ?_
  rw [List.map_cons, List.getLast?_cons, ht]
  rfl

theorem not_endsNoCast_colon (d : Dialect) (last : Option Char) :
    ¬ EndsNoCast (lexFrom d last [] [':']).1 := by
  have hhead : head d last ':' [] = (some .symbol, 0) := rfl
  have htokens : (lexFrom d last [] [':']).1 = [⟨.symbol, [], [':']⟩] := by
    simp [lexFrom, hhead]
  rw [htokens]
  exact fun h => Bool.false_ne_true (h _ rfl).symm

theorem map_ungapped_lexFrom_append {s : List Char} (h : closedFrom d last s = true)
    (hb : b ∈ seams) (ht : Ends b t) (hend : b = ':' → EndsNoCast (lexFrom d last [] s).1)
    (gap : List Char) : (lexFrom d last gap (s ++ t)).1.map ungapped =
      (lexFrom d last [] s).1.map ungapped ++ (lexFrom d none [] t).1.map ungapped := by
  fun_induction closedFrom d last s generalizing gap with
  | case1 last =>
      rw [lexFrom]
      exact map_ungapped_lexFrom_of_ends hb ht last none gap []
  | case2 last c cs n ih =>
      rw [Bool.and_eq_true, decide_eq_true_iff] at h
      obtain ⟨hle, hrest⟩ := h
      have hcolon : b = ':' → cs = [] → c ≠ ':' := by
        rintro hcolon rfl rfl
        exact not_endsNoCast_colon d last (hend hcolon)
      have hhead := head_of_le hb ht hcolon hle
      have hown : head d last c cs = head d last c (cs ++ [' ']) := by
        have hown := head_of_le (by decide) .nil (fun hcolon : ' ' = ':' => by cases hcolon) hle
        rwa [List.append_nil] at hown
      rw [lexFrom, hown] at hend
      rw [List.cons_append, lexFrom, lexFrom, hhead, hown]
      simp only [n] at hle hrest ih
      simp only [List.take_append_of_le_length hle, List.drop_append_of_le_length hle]
      cases hkind : (head d last c (cs ++ [' '])).1 with
      | none =>
          rw [hkind] at hend
          dsimp only at hend ⊢
          rw [EndsNoCast, map_ungapped_lexFrom d _ _ []] at hend
          rw [ih hrest hend]
          congr 1
          exact map_ungapped_lexFrom d _ [] _ _
      | some kind =>
          rw [hkind] at hend
          dsimp only at hend ⊢
          rw [List.map_cons, List.map_cons, ih hrest fun hcolon => (hend hcolon).of_cons]
          rfl

/-- A text gives the tokens, up to their gaps, whatever stands before it and after a stop behind
it. -/
def Spells (d : Dialect) (s : List Char) (ts : List Token) : Prop :=
  ∀ (last : Option Char) (gap : List Char) (b : Char) (t : List Char),
    last ∉ [some 'E', some 'e'] → IsStop b → Ends b t →
      (lexFrom d last gap (s ++ t)).1.map ungapped =
        ts.map ungapped ++ (lexFrom d none [] t).1.map ungapped

theorem lexFrom_congr_last (hlast : last ∉ [some 'E', some 'e']) (gap s : List Char) :
    lexFrom d last gap s = lexFrom d none gap s := by
  cases s with
  | nil => rw [lexFrom, lexFrom]
  | cons c cs =>
      have hnone : (none : Option Char) ∉ [some 'E', some 'e'] := by decide
      rw [lexFrom, lexFrom, head_congr_last hlast hnone]

theorem spells_of_closedFrom {s : List Char} (h : closedFrom d none s = true) :
    Spells d s (lex d s) := by
  intro last gap b t hlast hb ht
  rw [lexFrom_congr_last hlast]
  exact map_ungapped_lexFrom_append h hb.mem_seams ht (fun hcolon => absurd hcolon hb.2) gap

def isWordText : List Char → Bool
  | [] => false
  | c :: cs => isWordStart c && cs.all isWordChar

theorem head_of_isWordText (h : isWordText (c :: cs) = true) (hb : b ∈ seams) (ht : Ends b t) :
    head d last c (cs ++ t) = (some .word, cs.length) := by
  obtain ⟨hc, hcs⟩ := Bool.and_eq_true_iff.1 h
  have hcs := List.all_eq_true.1 hcs
  have htake : (cs ++ t).takeWhile isWordChar = cs := by
    have hword : isWordChar b = false := eq_false_of_mem_seams hb (by decide)
    rw [ht.takeWhile_append hword, List.takeWhile_eq_self_iff.2 hcs]
  rcases head_of_isWordStart (d := d) hc last (cs ++ t) with ⟨-, hquote⟩ | hhead
  · rw [ht.head?_append (ne_of_mem_seams hb (by decide))] at hquote
    obtain ⟨cs, rfl⟩ := List.head?_eq_some_iff.1 hquote
    exact absurd (hcs _ List.mem_cons_self) (by decide)
  · rw [hhead, htake]

def bareWord (s : String) : Token := ⟨.word, [], s.toList⟩

def sign (c : Char) : Token := ⟨.symbol, [], [c]⟩

theorem ungapped_sign (c : Char) : (sign c).ungapped = sign c := rfl

theorem head_sign (hc : c ∈ ['(', ')', ',']) (last : Option Char) (cs : List Char) :
    head d last c cs = (some .symbol, 0) := by
  have hfirst : ∀ e ∈ ['(', ')', ','], e ∉ twoCharSymbols.map Prod.fst := by
    simp [twoCharSymbols]
  have hplain : ['(', ')', ','].all (fun c => !Text.isBlank c && !c.isDigit && !isWordStart c) :=
    rfl
  obtain ⟨⟨hblank, hdigit⟩, hstart⟩ := by
    simpa only [Bool.and_eq_true, Bool.not_eq_true'] using List.all_eq_true.1 hplain c hc
  have hne {e : Char} (he : e ∉ ['(', ')', ',']) : (c == e) = false :=
    beq_eq_false_iff_ne.2 (by rintro rfl; exact he hc)
  unfold head
  simp only [hblank, hdigit, hstart, not_pair (hfirst c hc), hne (e := '-') (by decide), hne (e := '/') (by decide),
    hne (e := '\'') (by decide), hne (e := '"') (by decide), hne (e := '\x60') (by decide),
    hne (e := '[') (by decide), hne (e := '$') (by decide), hne (e := '.') (by decide),
    Bool.false_and, Bool.or_self, Bool.false_eq_true, if_false]

theorem map_ungapped_lexFrom_sign (hc : c ∈ ['(', ')', ',']) (last : Option Char)
    (gap cs : List Char) : (lexFrom d last gap (c :: cs)).1.map ungapped =
      sign c :: (lexFrom d (some c) [] cs).1.map ungapped := by
  rw [lexFrom, head_sign hc]
  rfl

theorem lexFrom_blank (last : Option Char) (gap cs : List Char) :
    lexFrom d last gap (' ' :: cs) = lexFrom d (some ' ') (' ' :: gap) cs := by
  rw [lexFrom]
  rfl

namespace Spells

variable {s : List Char} {ts : List Token}

theorem map_ungapped_lex (h : Spells d s ts) : (lex d s).map ungapped = ts.map ungapped := by
  have hs := h none [] ' ' [] (by decide) isStop_blank .nil
  have hnil : lexFrom d none [] [] = ([], []) := by rw [lexFrom]; rfl
  rwa [List.append_nil, hnil, List.map_nil, List.append_nil] at hs

/-- Any text may follow after a blank. -/
theorem map_ungapped_lex_blank (h : Spells d s ts) (t : List Char) :
    (lex d (s ++ ' ' :: t)).map ungapped = (ts ++ lex d t).map ungapped := by
  have hs := h none [] ' ' (' ' :: t) (by decide) isStop_blank (.cons t)
  have hblank : (lexFrom d none [] (' ' :: t)).1.map ungapped = (lex d t).map ungapped := by
    rw [lexFrom_blank, lexFrom_congr_last (by decide)]
    exact map_ungapped_lexFrom d none [' '] [] t
  rw [List.map_append, ← hblank]
  exact hs

theorem parens (h : Spells d s ts) :
    Spells d ('(' :: (s ++ [')'])) (sign '(' :: (ts ++ [sign ')'])) := by
  intro last gap b t hlast hb ht
  rw [List.cons_append, List.append_assoc, List.singleton_append,
    map_ungapped_lexFrom_sign (by decide),
    h (some '(') [] ')' _ (by decide) (isStop_of_mem (by decide)) (.cons t),
    map_ungapped_lexFrom_sign (by decide),
    map_ungapped_lexFrom_of_ends hb.mem_seams ht _ none [] []]
  simp [ungapped_sign]

end Spells

end SchemaDrift.Token
