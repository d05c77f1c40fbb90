import SchemaDrift.Proofs.Blocks

namespace SchemaDrift

open Statement

open Lexeme

/-- `BEGIN body END` after a head. What is skipped before the statement stands apart. -/
structure BlockText where
  skipped : List Lexeme
  head : List Lexeme
  opening : List Char
  body : List Lexeme
  closing : List Char

namespace BlockText

def lexemes (t : BlockText) : List Lexeme :=
  t.head ++ .word t.opening :: (t.body ++ [.word t.closing])

structure IsBalanced (δ : Delimiter) (t : BlockText) : Prop where
  skipped : ∀ l ∈ t.skipped, l.isFiller = true
  first : ∀ l ∈ t.head.head?, l.isFiller = false
  head : ∀ l ∈ t.head, (l.isPlain || l.isFiller) = true
  opening : Text.sameWord t.opening "BEGIN".toList = true
  opens : opens t.body = true
  body : Nested δ t.body
  closing : Text.sameWord t.closing "END".toList = true

/-- A statement begins with code. -/
theorem IsBalanced.exists_first {δ : Delimiter} {t : BlockText} (ht : t.IsBalanced δ) :
    ∃ l ls, t.lexemes ++ [.delimiter] = l :: ls ∧ l.isFiller = false ∧ l ≠ .delimiter := by
  cases hhead : t.head with
  | nil => exact ⟨.word t.opening, _, by rw [lexemes, hhead]; rfl, rfl, nofun⟩
  | cons l ls =>
      refine ⟨l, _, by rw [lexemes, hhead]; rfl, ht.first l (by rw [hhead]; rfl), ?_⟩
      rintro rfl
      have hl := ht.head .delimiter (by rw [hhead]; exact List.mem_cons_self)
      cases hl

/-- The delimiter is no `BEGIN` or `END`, and what is skipped is no word. -/
theorem IsBalanced.rowFree {δ : Delimiter} {t : BlockText} (ht : t.IsBalanced δ)
    (hrow : Memory.empty.rowFree t.lexemes = true) :
    Memory.empty.rowFree (t.skipped ++ (t.lexemes ++ [.delimiter])) = true := by
  have hlast (m : Memory) : m.rowFree [.delimiter] = true := by
    rw [Memory.rowFree, Memory.rowFree, Bool.and_true, Bool.not_eq_true', Bool.and_eq_false_iff]
    exact .inr rfl
  rw [Memory.rowFree_append, Memory.rowFree_append, Memory.rowFree_of_isFiller ht.skipped,
    Memory.afterAll_of_isFiller ht.skipped, hrow, hlast]
  rfl

end BlockText

namespace Statement

variable {d : Dialect} {δ : Delimiter} {rest : List Char} {m : Memory} {l : Lexeme}
  {ls next : List Lexeme} {here start : Spot} {r : Draft}

def Draft.beginning (here : Spot) : Draft := { Draft.empty with start := some here }

theorem directive?_of_headWord? {s : List Char} (h : Piece.headWord? s = none) :
    Piece.directive? d s = none := by
  rw [Piece.directive?, h]
  split <;> rfl

/-- Blanks and comments before a statement leave nothing behind. -/
theorem leads_skipped (hδ : δ.IsPlain d) (hls : ∀ l ∈ ls, l.isFiller = true)
    (h : Faces d δ rest m (ls ++ next) here .empty) :
    Leads d here δ .empty (here.advance (texts δ ls).length) δ .empty := by
  induction ls generalizing here with
  | nil => exact .refl _ _ _
  | cons l ls ih =>
      obtain ⟨hl, hls⟩ := List.forall_mem_cons.1 hls
      have hnone : Piece.directive? d here.ahead = none := by
        refine directive?_of_headWord? ?_
        rw [h.ahead, List.cons_append, texts_cons, List.append_assoc]
        refine h.legible.1.headWord?_none hδ ?_ ?_
        · rintro run rfl
          cases hl
        · rintro c rfl
          cases hl
      have hturn := h.turn_eq hδ fun _ => hnone
      have hafter := Memory.after_of_isFiller hl m
      have haccept : accept here δ .empty (l.text δ).length l.piece =
          .go (here.advance (l.text δ).length) δ .empty := by
        cases l with
        | blank | comment => rfl
        | delimiter | quoted | word | mark => cases hl
      have hrecalls : Draft.empty.Recalls (m.afterAll [l]) := by
        change Draft.empty.Recalls (m.after l)
        rw [hafter]
        exact h.recalls
      have hfaces : Faces d δ rest m (ls ++ next) (here.advance (l.text δ).length) .empty := by
        have hdrop : Faces d δ rest (m.afterAll [l]) (ls ++ next)
            (here.advance (texts δ [l]).length) .empty :=
          .drop h hrecalls
        rw [texts_singleton] at hdrop
        change Faces d δ rest (m.after l) _ _ _ at hdrop
        rwa [hafter] at hdrop
      have hleads := ih hls hfaces
      rw [Spot.advance_advance, ← List.length_append, ← texts_cons] at hleads
      exact .step (hturn.trans haccept) hleads

/-- The code that a statement begins with is read as if the statement had begun there already. -/
theorem turn_beginning (hδ : δ.IsPlain d) (h : Faces d δ rest m (l :: next) here .empty)
    (hl : l.isFiller = false) (hdelimiter : l ≠ .delimiter)
    (hdirective : Piece.directive? d here.ahead = none) :
    turn d here δ .empty = turn d here δ (.beginning here) := by
  have h' : Faces d δ rest m (l :: next) here (.beginning here) :=
    ⟨h.ahead, h.legible, h.rowFree, h.recalls.congr rfl rfl⟩
  have hcode (run : List Char) : Draft.empty.code here run =
      (Draft.beginning here).code here run := by
    simp [Draft.code, Draft.empty, Draft.beginning]
  rw [h.turn_eq hδ fun _ => hdirective,
    h'.turn_eq hδ fun hnone => absurd hnone (Option.some_ne_none here)]
  cases l with
  | blank | comment => cases hl
  | delimiter => exact absurd rfl hdelimiter
  | quoted run | mark c => rw [piece, accept, accept, hcode]
  | word w =>
      rw [piece, accept, accept, Draft.word, Draft.word, hcode]
      rfl

theorem takesIn_head (hδ : δ.IsPlain d) (hstart : r.start = some start)
    (hls : ∀ l ∈ ls, (l.isPlain || l.isFiller) = true)
    (h : Faces d δ rest m (ls ++ next) here r) :
    ∃ r', TakesIn d δ rest m ls next here r r.depth r' := by
  induction ls generalizing m here r with
  | nil => exact ⟨r, .refl _ _ _, rfl, rfl, rfl, h⟩
  | cons l ls ih =>
      obtain ⟨hl, hls⟩ := List.forall_mem_cons.1 hls
      obtain ⟨r₁, h₁⟩ := takesIn_of_isPlain hδ hstart h hl
      exact h₁.andThen (ih (h₁.start.trans hstart) hls h₁.faces)

/-- A statement that has begun, up to the delimiter behind its last `END`. -/
theorem takesIn_lexemes (hδ : δ.IsPlain d) {t : BlockText} (ht : t.IsBalanced δ)
    (hstart : r.start = some start)
    (h : Faces d δ rest m (t.lexemes ++ [.delimiter]) here r) :
    ∃ r', TakesIn d δ rest m t.lexemes [.delimiter] here r r.depth r' := by
  have hlexemes : t.lexemes ++ [.delimiter] =
      t.head ++ .word t.opening :: (t.body ++ .word t.closing :: [.delimiter]) := by
    simp [BlockText.lexemes]
  rw [hlexemes] at h
  obtain ⟨r₁, h₁⟩ := takesIn_head hδ hstart ht.head h
  obtain ⟨r₂, h₂⟩ := takesIn_begin hδ (h₁.start.trans hstart) h₁.faces ht.opening
    (opens_append ht.closing ht.opens _) (unspaced_append_ne_nil _ _ rfl)
  have hassoc : Lexeme.word t.opening :: (t.body ++ .word t.closing :: [.delimiter]) =
      (.word t.opening :: (t.body ++ [.word t.closing])) ++ [.delimiter] := by
    simp
  rw [hassoc] at h₁
  refine h₁.andThen (takesIn_enclosed [.word t.closing] h₂
    (fun hfaces hsame hopen =>
      takesIn_nested hδ ht.body ht.closing (hsame.trans (h₁.start.trans hstart)) hfaces hopen)
    fun _ _ _ hfaces hsame =>
      takesIn_end hδ (hsame.trans (h₁.start.trans hstart)) hfaces ht.closing rfl
        (List.cons_ne_nil _ _))

theorem Reads.of_turn {r' : Draft} (hturn : turn d here δ r = turn d here δ r')
    {item : Option Item} {last : Splitter} (h : Reads d here δ r' item last) :
    Reads d here δ r item last := by
  cases h with
  | stop h => exact .stop (hturn.trans h)
  | go h t => exact .go (hturn.trans h) t

/-- What is read from the first lexeme on. -/
theorem reads_lexemes (hδ : δ.IsPlain d) {t : BlockText} (ht : t.IsBalanced δ)
    (h : Faces d δ rest .empty (t.lexemes ++ [.delimiter]) start .empty)
    (hdirective : Piece.directive? d start.ahead = none) :
    Reads d start δ .empty
      (some (.ok ⟨String.ofList (Text.trim (t.lexemes.flatMap (shown δ))), start.offset,
        start.line⟩))
      ⟨start.advance (texts δ (t.lexemes ++ [.delimiter])).length, δ⟩ := by
  have hbegun : Faces d δ rest .empty (t.lexemes ++ [.delimiter]) start (.beginning start) :=
    ⟨h.ahead, h.legible, h.rowFree, rfl, rfl, fun _ => rfl⟩
  obtain ⟨l, ls, hl, hfiller, hdelimiter⟩ := ht.exists_first
  have hturn : turn d start δ .empty = turn d start δ (.beginning start) :=
    turn_beginning hδ (hl ▸ h) hfiller hdelimiter hdirective
  obtain ⟨r, hr⟩ := takesIn_lexemes hδ ht rfl hbegun
  have hstop : turn d (start.advance (texts δ t.lexemes).length) δ r =
      .stop (some (.ok (r.statement start)))
        ⟨(start.advance (texts δ t.lexemes).length).advance δ.toList.length, δ⟩ := by
    rw [hr.faces.turn_eq hδ
      fun hnone => absurd (hr.start.symm.trans hnone) (Option.some_ne_none start)]
    exact accept_delimiter hr.start hr.depth _
  have hreads := Reads.of_turn hturn (hr.leads.reads (.stop hstop))
  have hstatement : r.statement start =
      ⟨String.ofList (Text.trim (t.lexemes.flatMap (shown δ))), start.offset, start.line⟩ := by
    rw [Draft.statement, hr.text]
    simp [Draft.beginning, Draft.empty]
  rw [texts_append, texts_singleton, List.length_append, ← Spot.advance_advance]
  rw [hstatement] at hreads
  exact hreads

/-- A statement with blocks in it is one item, up to the delimiter behind its last `END`. -/
theorem next_blockStatement {s : Splitter} {t : BlockText} (hδ : s.delimiter ∈ Delimiter.usual)
    (ht : t.IsBalanced s.delimiter)
    (hahead : s.spot.ahead =
      texts s.delimiter (t.skipped ++ (t.lexemes ++ [.delimiter])) ++ rest)
    (hlegible : Legible d s.delimiter s.spot.behind
      (t.skipped ++ (t.lexemes ++ [.delimiter])) rest)
    (hdirective :
      Piece.directive? d (texts s.delimiter (t.lexemes ++ [.delimiter]) ++ rest) = none)
    (hrow : Memory.empty.rowFree t.lexemes = true) :
    s.next d = (some (.ok ⟨String.ofList (Text.trim (t.lexemes.flatMap (shown s.delimiter))),
        (s.spot.advance (texts s.delimiter t.skipped).length).offset,
        (s.spot.advance (texts s.delimiter t.skipped).length).line⟩),
      ⟨s.spot.advance (texts s.delimiter (t.skipped ++ (t.lexemes ++ [.delimiter]))).length,
        s.delimiter⟩) := by
  obtain ⟨here, δ⟩ := s
  dsimp only at *
  have hplain := Delimiter.isPlain_of_mem_usual hδ d
  have hfaces : Faces d δ rest .empty (t.skipped ++ (t.lexemes ++ [.delimiter])) here .empty :=
    ⟨hahead, hlegible, ht.rowFree hrow, rfl, rfl, fun _ => rfl⟩
  have hempty := Memory.afterAll_of_isFiller ht.skipped .empty
  have hrecalls : Draft.empty.Recalls (Memory.empty.afterAll t.skipped) :=
    hempty.symm ▸ ⟨rfl, rfl, fun _ => rfl⟩
  have hrest := hfaces.drop hrecalls
  rw [hempty] at hrest
  have hreads := (leads_skipped hplain ht.skipped hfaces).reads
    (reads_lexemes hplain ht hrest (by rw [hrest.ahead]; exact hdirective))
  rw [Spot.advance_advance, ← List.length_append, ← texts_append] at hreads
  exact Splitter.reads_iff_next.1 hreads

def callBlock : BlockText where
  skipped := []
  head := [.word "DO".toList, .blank ' ']
  opening := "BEGIN".toList
  body := [.blank ' ', .word "x".toList, .delimiter, .blank ' ', .word "begin".toList, .blank ' ',
    .word "END".toList, .delimiter, .blank ' ']
  closing := "End".toList

theorem isBalanced_callBlock : callBlock.IsBalanced .semicolon where
  skipped := by decide
  first := by decide
  head := by decide
  opening := by decide
  opens := by decide
  body := by
    refine .plain rfl (.plain rfl (.delimiter (.plain rfl ?_)))
    have hinner : Nested .semicolon [.blank ' '] := .plain rfl .nil
    exact .block (by decide) (by decide) hinner (by decide) (by decide)
      (.delimiter (.plain rfl .nil))
  closing := by decide

theorem legible_callBlock :
    Legible .mySql .semicolon [] (callBlock.lexemes ++ [.delimiter]) " y".toList := by
  refine ⟨.of_word ?_ ?_ ?_ ?_ ?_, .blank ?_, .of_word ?_ ?_ ?_ ?_ ?_, .blank ?_,
    .of_word ?_ ?_ ?_ ?_ ?_, .delimiter, .blank ?_, .of_word ?_ ?_ ?_ ?_ ?_, .blank ?_,
    .of_word ?_ ?_ ?_ ?_ ?_, .delimiter, .blank ?_, .of_word ?_ ?_ ?_ ?_ ?_, .delimiter, trivial⟩
  all_goals decide

/-- The delimiters inside the block and the inner `END` do not end the statement. -/
theorem next_callBlock :
    ((Splitter.start "DO BEGIN x; begin END; End; y").next .mySql).1 =
        some (.ok ⟨"DO BEGIN x; begin END; End", 0, 1⟩) ∧
      ((Splitter.start "DO BEGIN x; begin END; End; y").next .mySql).2.spot.ahead =
        " y".toList := by
  have hnext := next_blockStatement (s := .start "DO BEGIN x; begin END; End; y") (t := callBlock)
    (d := .mySql) (by decide) isBalanced_callBlock (by decide)
    legible_callBlock (by decide) (by decide)
  rw [hnext]
  decide

def rowBlock : BlockText where
  skipped := []
  head := [.word "CREATE".toList, .blank ' ', .word "PROCEDURE".toList, .blank ' ',
    .word "p".toList, .mark '(', .mark ')', .blank ' ']
  opening := "BEGIN".toList
  body := [.blank ' ', .word "SELECT".toList, .blank ' ', .word "a".toList, .blank ' ',
    .word "AS".toList, .blank ' ', .quoted "'x'".toList, .delimiter, .blank ' ',
    .word "row".toList, .mark ':', .blank ' ', .word "BEGIN".toList, .blank ' ',
    .word "SELECT".toList, .blank ' ', .word "b".toList, .delimiter, .blank ' ',
    .word "END".toList, .delimiter, .blank ' ']
  closing := "END".toList

theorem isBalanced_rowBlock : rowBlock.IsBalanced .semicolon where
  skipped := by decide
  first := by decide
  head := by decide
  opening := by decide
  opens := by decide
  body := by
    refine .plain rfl (.plain rfl (.plain rfl (.plain rfl (.plain rfl (.plain rfl (.plain rfl
      (.plain rfl (.delimiter (.plain rfl (.plain rfl (.plain rfl (.plain rfl ?_))))))))))))
    have hinner : Nested .semicolon [.blank ' ', .word "SELECT".toList, .blank ' ',
        .word "b".toList, .delimiter, .blank ' '] :=
      .plain rfl (.plain rfl (.plain rfl (.plain rfl (.delimiter (.plain rfl .nil)))))
    exact .block (by decide) (by decide) hinner (by decide) (by decide)
      (.delimiter (.plain rfl .nil))
  closing := by decide

theorem legible_rowBlock :
    Legible .mySql .semicolon [] (rowBlock.lexemes ++ [.delimiter]) [] := by
  have hquoted {behind rest : List Char} (hrest : rest.head? ≠ some '\'') :
      (Lexeme.quoted "'x'".toList).Stands .mySql .semicolon behind rest :=
    .quoted (.quote .single (.plain (fun _ => by decide) (by decide) (.close hrest)))
      fun h => absurd (List.cons_prefix_cons.1 h).1 (by decide)
  refine ⟨.of_word ?_ ?_ ?_ ?_ ?_, .blank ?_, .of_word ?_ ?_ ?_ ?_ ?_, .blank ?_,
    .of_word ?_ ?_ ?_ ?_ ?_, .of_mark ?_ ?_ ?_ ?_ ?_, .of_mark ?_ ?_ ?_ ?_ ?_, .blank ?_,
    .of_word ?_ ?_ ?_ ?_ ?_, .blank ?_, .of_word ?_ ?_ ?_ ?_ ?_, .blank ?_,
    .of_word ?_ ?_ ?_ ?_ ?_, .blank ?_, .of_word ?_ ?_ ?_ ?_ ?_, .blank ?_, hquoted ?_,
    .delimiter, .blank ?_, .of_word ?_ ?_ ?_ ?_ ?_, .of_mark ?_ ?_ ?_ ?_ ?_, .blank ?_,
    .of_word ?_ ?_ ?_ ?_ ?_, .blank ?_, .of_word ?_ ?_ ?_ ?_ ?_, .blank ?_,
    .of_word ?_ ?_ ?_ ?_ ?_, .delimiter, .blank ?_, .of_word ?_ ?_ ?_ ?_ ?_, .delimiter, .blank ?_,
    .of_word ?_ ?_ ?_ ?_ ?_, .delimiter, trivial⟩
  all_goals decide

/-- The inner `BEGIN` is taken for that of `AS ROW BEGIN`, and the statement ends with the inner
block. -/
theorem split_rowBlock :
    rowBlock.IsBalanced .semicolon ∧
      Legible .mySql .semicolon [] (rowBlock.lexemes ++ [.delimiter]) [] ∧
      String.ofList (texts .semicolon (rowBlock.lexemes ++ [.delimiter])) =
        "CREATE PROCEDURE p() BEGIN SELECT a AS 'x'; row: BEGIN SELECT b; END; END;" ∧
      split .mySql "CREATE PROCEDURE p() BEGIN SELECT a AS 'x'; row: BEGIN SELECT b; END; END;" =
        [.ok ⟨"CREATE PROCEDURE p() BEGIN SELECT a AS 'x'; row: BEGIN SELECT b; END", 0, 1⟩,
          .ok ⟨"END", 70, 1⟩] :=
  ⟨isBalanced_rowBlock, legible_rowBlock, by decide +kernel, by decide +kernel⟩

end Statement

end SchemaDrift
