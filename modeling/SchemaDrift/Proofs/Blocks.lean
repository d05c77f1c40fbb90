import SchemaDrift.Proofs.BlockWords

namespace SchemaDrift

namespace Statement

variable {d : Dialect} {δ : Delimiter} {here : Spot} {r r' : Draft} {m : Memory}

inductive Leads (d : Dialect) : Spot → Delimiter → Draft → Spot → Delimiter → Draft → Prop
  | refl (here : Spot) (δ : Delimiter) (r : Draft) : Leads d here δ r here δ r
  | step {here there last : Spot} {δ δ' δ'' : Delimiter} {r r' r'' : Draft}
      (h : turn d here δ r = .go there δ' r') (t : Leads d there δ' r' last δ'' r'') :
      Leads d here δ r last δ'' r''

namespace Leads

variable {there last : Spot} {δ' δ'' : Delimiter} {r'' : Draft}

theorem trans (h : Leads d here δ r there δ' r') (h' : Leads d there δ' r' last δ'' r'') :
    Leads d here δ r last δ'' r'' := by
  induction h with
  | refl => exact h'
  | step hturn _ ih => exact .step hturn (ih h')

theorem reads (h : Leads d here δ r there δ' r') {item : Option Item} {last : Splitter}
    (h' : Reads d there δ' r' item last) : Reads d here δ r item last := by
  induction h with
  | refl => exact h'
  | step hturn _ ih => exact .go hturn (ih h')

end Leads

open Lexeme

structure Faces (d : Dialect) (δ : Delimiter) (rest : List Char) (m : Memory) (ls : List Lexeme)
    (here : Spot) (r : Draft) : Prop where
  ahead : here.ahead = texts δ ls ++ rest
  legible : Legible d δ here.behind ls rest
  rowFree : m.rowFree ls = true
  recalls : r.Recalls m

/-- Reading takes in the lexemes `ls`, leaves `depth` blocks open and stands before `next`. -/
structure TakesIn (d : Dialect) (δ : Delimiter) (rest : List Char) (m : Memory)
    (ls next : List Lexeme) (here : Spot) (r : Draft) (depth : Nat) (r' : Draft) : Prop where
  leads : Leads d here δ r (here.advance (texts δ ls).length) δ r'
  start : r'.start = r.start
  depth : r'.depth = depth
  text : r'.text = (ls.flatMap (shown δ)).reverse ++ r.text
  faces : Faces d δ rest (m.afterAll ls) next (here.advance (texts δ ls).length) r'

section

variable {rest : List Char} {l : Lexeme} {ls ls' next : List Lexeme} {depth depth' : Nat}
  {start : Spot} {r'' : Draft}

theorem Faces.drop (h : Faces d δ rest m (ls ++ next) here r)
    (hr : r'.Recalls (m.afterAll ls)) :
    Faces d δ rest (m.afterAll ls) next (here.advance (texts δ ls).length) r' := by
  have hahead : here.ahead = texts δ ls ++ (texts δ next ++ rest) := by
    rw [h.ahead, texts_append, List.append_assoc]
  have hrow := h.rowFree
  rw [Memory.rowFree_append, Bool.and_eq_true] at hrow
  refine ⟨?_, ?_, hrow.2, hr⟩
  · rw [Spot.ahead_advance, hahead, List.drop_left]
  · have hbehind : (here.advance (texts δ ls).length).behind =
        (texts δ ls).reverse ++ here.behind := by
      rw [Spot.advance, hahead, List.take_left]
    rw [hbehind]
    exact (legible_append.1 h.legible).2

theorem TakesIn.trans (h : TakesIn d δ rest m ls (ls' ++ next) here r depth r')
    (h' : TakesIn d δ rest (m.afterAll ls) ls' next (here.advance (texts δ ls).length) r' depth'
      r'') : TakesIn d δ rest m (ls ++ ls') next here r depth' r'' := by
  have hadvance : (here.advance (texts δ ls).length).advance (texts δ ls').length =
      here.advance (texts δ (ls ++ ls')).length := by
    rw [Spot.advance_advance, texts_append, List.length_append]
  refine ⟨?_, h'.start.trans h.start, h'.depth, ?_, ?_⟩
  · rw [← hadvance]
    exact h.leads.trans h'.leads
  · rw [h'.text, h.text, List.flatMap_append, List.reverse_append, List.append_assoc]
  · rw [← hadvance, Memory.afterAll_append]
    exact h'.faces

theorem Faces.take_ahead (h : Faces d δ rest m (l :: next) here r) :
    here.ahead.take (l.text δ).length = l.text δ ∧
      here.ahead.drop (l.text δ).length = texts δ next ++ rest := by
  rw [h.ahead, texts_cons, List.append_assoc]
  exact ⟨List.take_left, List.drop_left⟩

theorem TakesIn.andThen (h : TakesIn d δ rest m ls (ls' ++ next) here r depth r')
    (h' : ∃ r'', TakesIn d δ rest (m.afterAll ls) ls' next (here.advance (texts δ ls).length) r'
      r'.depth r'') : ∃ r'', TakesIn d δ rest m (ls ++ ls') next here r depth r'' := by
  obtain ⟨r'', h'⟩ := h'
  rw [h.depth] at h'
  exact ⟨r'', h.trans h'⟩

/-- The piece at hand is that of the first lexeme. -/
theorem Faces.turn_eq (hδ : δ.IsPlain d) (h : Faces d δ rest m (l :: next) here r)
    (hdirective : r.start = none → Piece.directive? d here.ahead = none) :
    turn d here δ r = accept here δ r (l.text δ).length l.piece := by
  have hahead : here.ahead = l.text δ ++ (texts δ next ++ rest) := by
    rw [h.ahead, texts_cons, List.append_assoc]
  have hnone : r.start.isSome = false →
      Piece.directive? d (l.text δ ++ (texts δ next ++ rest)) = none := by
    intro hstart
    rw [← hahead]
    exact hdirective (Option.isNone_iff_eq_none.1 (by rw [← Option.not_isSome, hstart]; rfl))
  obtain ⟨c, cs, hl, hnext⟩ := h.legible.1.next hδ hnone
  refine turn_eq_accept ?_ hnext
  rw [hahead, hl]
  rfl

section

variable (hδ : δ.IsPlain d) (hstart : r.start = some start)
  (h : Faces d δ rest m (l :: next) here r)

include hδ hstart h

/-- One turn takes in one lexeme. -/
theorem takesIn_of_accept (haccept : accept here δ r (l.text δ).length l.piece =
      .go (here.advance (l.text δ).length) δ r')
    (hsame : r'.start = r.start) (hdepth : r'.depth = depth)
    (htext : r'.text = (l.shown δ).reverse ++ r.text) (hrecalls : r'.Recalls (m.after l)) :
    TakesIn d δ rest m [l] next here r depth r' := by
  have hturn := h.turn_eq hδ fun hnone =>
    absurd (hstart.symm.trans hnone) (Option.some_ne_none start)
  have htexts := texts_singleton δ l
  refine ⟨?_, hsame, hdepth, ?_, ?_⟩
  · rw [htexts]
    exact .step (hturn.trans haccept) (.refl _ _ _)
  · rw [htext, List.flatMap_cons, List.flatMap_nil, List.append_nil]
  · rw [← List.singleton_append] at h
    exact h.drop hrecalls

/-- A lexeme that only goes into the text. -/
theorem takesIn_of_text (hword : ∀ w, l ≠ .word w) (hdelimiter : l ≠ .delimiter) :
    ∃ r', TakesIn d δ rest m [l] next here r r.depth r' := by
  have hfiller (run : List Char) := Draft.filler_of_started hstart run
  have hcode (run : List Char) := Draft.code_of_started hstart here run
  obtain ⟨htake, -⟩ := h.take_ahead
  have hafter : m.after l = m := by
    cases l with
    | word w => exact absurd rfl (hword w)
    | blank | comment | delimiter | quoted | mark => rfl
  have haccept : accept here δ r (l.text δ).length l.piece = .go (here.advance (l.text δ).length) δ
      { r with text := (l.shown δ).reverse ++ r.text } := by
    cases l with
    | word w => exact absurd rfl (hword w)
    | delimiter => exact absurd rfl hdelimiter
    | comment run =>
        rw [piece, accept, hfiller]
        rfl
    | blank c =>
        rw [piece, accept, htake, hfiller]
        rfl
    | quoted run | mark c =>
        rw [piece, accept, htake, hcode]
        rfl
  refine ⟨_, takesIn_of_accept hδ hstart h haccept rfl rfl rfl ?_⟩
  rw [hafter]
  exact h.recalls.congr rfl rfl

end

section

variable (hδ : δ.IsPlain d) (hstart : r.start = some start)

include hδ hstart

theorem takesIn_word {w : List Char} (h : Faces d δ rest m (.word w :: next) here r)
    (heffect : blockEffect δ r w (texts δ next ++ rest) = (depth, 0)) :
    ∃ r', TakesIn d δ rest m [.word w] next here r depth r' := by
  obtain ⟨htake, hdrop⟩ : here.ahead.take w.length = w ∧
      here.ahead.drop w.length = texts δ next ++ rest := h.take_ahead
  have haccept : accept here δ r w.length .word = .go (here.advance w.length) δ { r with
      text := w.reverse ++ r.text, depth := depth, wordBefore := r.lastWord, lastWord := w } := by
    rw [accept, htake, hdrop, heffect, Draft.word, Draft.code_of_started hstart, Nat.add_zero,
      htake]
  exact ⟨_, takesIn_of_accept hδ hstart h haccept rfl rfl rfl (h.recalls.word rfl rfl)⟩

theorem takesIn_delimiter (h : Faces d δ rest m (.delimiter :: next) here r)
    (hdepth : r.depth ≠ 0) : ∃ r', TakesIn d δ rest m [.delimiter] next here r r.depth r' := by
  obtain ⟨htake, -⟩ : here.ahead.take δ.toList.length = δ.toList ∧
      here.ahead.drop δ.toList.length = texts δ next ++ rest := h.take_ahead
  have haccept : accept here δ r δ.toList.length .delimiter =
      .go (here.advance δ.toList.length) δ { r with
        text := δ.toList.reverse ++ r.text
        fallback := r.fallback.orElse fun _ =>
          some (here, here.advance δ.toList.length, δ) } := by
    rw [accept, if_neg hdepth, Draft.pass, Draft.filler_of_started hstart, htake]
  exact ⟨_, takesIn_of_accept hδ hstart h haccept rfl rfl rfl (h.recalls.congr rfl rfl)⟩

/-- What is no word of blocks and no delimiter leaves the blocks as they are. -/
theorem takesIn_of_isPlain (h : Faces d δ rest m (l :: next) here r)
    (hl : (l.isPlain || l.isFiller) = true) :
    ∃ r', TakesIn d δ rest m [l] next here r r.depth r' := by
  by_cases hword : ∃ w, l = .word w
  · obtain ⟨w, rfl⟩ := hword
    have hother : (!Statement.isOneOf w ["BEGIN", "CASE", "END"] || false) = true := hl
    rw [Bool.or_false, Bool.not_eq_true'] at hother
    exact takesIn_word hδ hstart h (blockEffect_other hother)
  · refine takesIn_of_text hδ hstart h (fun w hw => hword ⟨w, hw⟩) ?_
    rintro rfl
    cases hl

omit hδ hstart in
theorem Faces.afterRow_eq_false {w : List Char} (h : Faces d δ rest m (.word w :: next) here r)
    (hw : Statement.isOneOf w ["BEGIN", "END"] = true) : r.afterRow = false := by
  have hrow := h.rowFree
  rw [Memory.rowFree, Lexeme.isOneOf, hw, Bool.and_true, Bool.and_eq_true,
    Bool.not_eq_true'] at hrow
  rw [h.recalls.afterRow_eq]
  exact hrow.1

theorem takesIn_begin {w : List Char} (h : Faces d δ rest m (.word w :: next) here r)
    (hw : Text.sameWord w "BEGIN".toList = true) (hopens : opens next = true)
    (hnext : unspaced next ≠ []) :
    ∃ r', TakesIn d δ rest m [.word w] next here r (r.depth + 1) r' := by
  obtain ⟨l, more, hl⟩ := List.exists_cons_of_ne_nil hnext
  rw [opens, hl, List.head?_cons, Option.all_some, Bool.and_eq_true, bne_iff_ne,
    Bool.not_eq_true'] at hopens
  have hrow := h.afterRow_eq_false (Bool.or_eq_true_iff.2 (.inl hw))
  have hblock := opensBlock_texts hδ h.legible hl hopens.1 hopens.2
  exact takesIn_word hδ hstart h (blockEffect_begin hw hrow hblock)

theorem takesIn_case {w : List Char} (h : Faces d δ rest m (.word w :: next) here r)
    (hw : Text.sameWord w "CASE".toList = true) :
    ∃ r', TakesIn d δ rest m [.word w] next here r (r.depth + 1) r' :=
  takesIn_word hδ hstart h (blockEffect_case hw)

theorem takesIn_end {w : List Char} (h : Faces d δ rest m (.word w :: next) here r)
    (hw : Text.sameWord w "END".toList = true) (hbare : bare next = true)
    (hnext : unspaced next ≠ []) :
    ∃ r', TakesIn d δ rest m [.word w] next here r (r.depth - 1) r' := by
  obtain ⟨l, more, hl⟩ := List.exists_cons_of_ne_nil hnext
  rw [bare, hl, List.head?_cons, Option.all_some, Bool.not_eq_true'] at hbare
  have hrow := h.afterRow_eq_false
    (Bool.or_eq_true_iff.2 (.inr (Bool.or_eq_true_iff.2 (.inl hw))))
  exact takesIn_word hδ hstart h (blockEffect_bare hδ h.legible hl hw hrow hbare)

theorem takesIn_taking {e w : List Char} {gap : List Lexeme}
    (h : Faces d δ rest m (.word e :: (gap ++ .word w :: next)) here r)
    (he : Text.sameWord e "END".toList = true) (hgap : ∀ l ∈ gap, l.isBlank = true)
    (hw : Statement.isOneOf w ("CASE" :: innerBlocks) = true) (hsetOff : setOff δ next = true)
    (hnext : next ≠ []) :
    ∃ r', TakesIn d δ rest m (.word e :: (gap ++ [.word w])) next here r
      (if Statement.isOneOf w innerBlocks then r.depth else r.depth - 1) r' := by
  have hrow := h.afterRow_eq_false
    (Bool.or_eq_true_iff.2 (.inr (Bool.or_eq_true_iff.2 (.inl he))))
  have heffect := blockEffect_taking (r := r) hδ h.legible hgap hsetOff hnext he hrow hw
  obtain ⟨htake, hdrop⟩ : here.ahead.take e.length = e ∧
      here.ahead.drop e.length = texts δ (gap ++ .word w :: next) ++ rest := h.take_ahead
  have hlexemes : Lexeme.word e :: (gap ++ .word w :: next) =
      (.word e :: (gap ++ [.word w])) ++ next := by
    rw [List.cons_append, List.append_assoc]
    rfl
  have hlength : (texts δ (.word e :: (gap ++ [.word w]))).length =
      e.length + (texts δ (gap ++ [.word w])).length := List.length_append
  have hall : here.ahead.take (e.length + (texts δ (gap ++ [.word w])).length) =
      texts δ (.word e :: (gap ++ [.word w])) := by
    rw [← hlength, h.ahead, hlexemes, texts_append, List.append_assoc, List.take_left]
  have hturn := h.turn_eq hδ fun hnone =>
    absurd (hstart.symm.trans hnone) (Option.some_ne_none start)
  change turn d here δ r = accept here δ r e.length .word at hturn
  rw [accept, htake, hdrop, heffect, Draft.word, Draft.code_of_started hstart, hall, htake]
    at hturn
  have hafter : m.afterAll (.word e :: (gap ++ [.word w])) =
      (m.after (.word e)).after (.word w) := by
    change (m.after (.word e)).afterAll (gap ++ [.word w]) = _
    rw [Memory.afterAll_append,
      Memory.afterAll_of_isFiller fun l hl => isFiller_of_isBlank (hgap l hl)]
    rfl
  have hshown : (Lexeme.word e :: (gap ++ [.word w])).flatMap (shown δ) =
      texts δ (.word e :: (gap ++ [.word w])) := by
    refine flatMap_shown fun l hl => ?_
    simp only [List.mem_cons, List.mem_append, List.not_mem_nil, or_false] at hl
    rintro run rfl
    rcases hl with hl | hl | hl
    · cases hl
    · exact absurd (hgap _ hl) Bool.false_ne_true
    · cases hl
  rw [hlexemes] at h
  have hleads : Leads d here δ r _ δ _ := .step hturn (.refl _ _ _)
  rw [← hlength] at hleads
  refine ⟨_, hleads, rfl, rfl, ?_, h.drop ?_⟩
  · rw [hshown]
  · rw [hafter]
    exact .closer rfl he hw _

end

theorem head?_unspaced_append (ls next : List Lexeme) (hl : l.isBlank = false) :
    (unspaced (ls ++ l :: next)).head? = some ((unspaced ls).head?.getD l) := by
  rw [unspaced, unspaced, List.dropWhile_append]
  cases hblank : ls.dropWhile Lexeme.isBlank with
  | nil =>
      rw [List.isEmpty_nil, if_pos rfl, List.dropWhile_cons_of_neg (Bool.eq_false_iff.1 hl)]
      rfl
  | cons f more => rfl

theorem unspaced_append_ne_nil (ls next : List Lexeme) (hl : l.isBlank = false) :
    unspaced (ls ++ l :: next) ≠ [] := by
  intro hnil
  have hhead := head?_unspaced_append ls next hl
  rw [hnil] at hhead
  cases hhead

/-- What holds of the first lexeme that is no blank holds of it before another that has it, too. -/
theorem all_unspaced_append {p : Lexeme → Bool} (h : (unspaced ls).head?.all p = true)
    (hl : l.isBlank = false) (hp : p l = true) (next : List Lexeme) :
    (unspaced (ls ++ l :: next)).head?.all p = true := by
  rw [head?_unspaced_append ls next hl, Option.all_some]
  cases hhead : (unspaced ls).head? with
  | none => exact hp
  | some f =>
      rw [hhead] at h
      exact h

theorem setOff_append (h : setOff δ ls = true) (hl : l ≠ .delimiter) (next : List Lexeme) :
    setOff δ (ls ++ l :: next) = true := by
  cases ls with
  | nil =>
      rw [setOff, Bool.or_eq_true]
      exact .inr (bne_iff_ne.2 fun hsome => hl (Option.some.inj hsome))
  | cons f ls => exact h

section

variable {e : List Char} (he : Text.sameWord e "END".toList = true)

include he

theorem opens_append (h : opens ls = true) (next : List Lexeme) :
    opens (ls ++ .word e :: next) = true := by
  refine all_unspaced_append h rfl ?_ next
  rw [Lexeme.isOneOf, isOneOf_of_sameWord he (by decide)]
  rfl

theorem bare_append (h : bare ls = true) (next : List Lexeme) :
    bare (ls ++ .word e :: next) = true := by
  refine all_unspaced_append h rfl ?_ next
  rw [Lexeme.isOneOf, isOneOf_of_sameWord he (by decide)]
  rfl

end

/-- What opens a block, the inside and what closes it. -/
theorem takesIn_enclosed {o : Lexeme} {body : List Lexeme} (closing : List Lexeme) {r₁ : Draft}
    (hopen : TakesIn d δ rest m [o] (body ++ (closing ++ next)) here r (r.depth + 1) r₁)
    (hbody : Faces d δ rest (m.after o) (body ++ (closing ++ next))
        (here.advance (texts δ [o]).length) r₁ → r₁.start = r.start → r₁.depth ≠ 0 →
      ∃ r₂, TakesIn d δ rest (m.after o) body (closing ++ next)
        (here.advance (texts δ [o]).length) r₁ r₁.depth r₂)
    (hclose : ∀ m₂ here₂ r₂, Faces d δ rest m₂ (closing ++ next) here₂ r₂ → r₂.start = r.start →
      ∃ r₃, TakesIn d δ rest m₂ closing next here₂ r₂ (r₂.depth - 1) r₃) :
    ∃ r', TakesIn d δ rest m (o :: (body ++ closing)) next here r r.depth r' := by
  have hdepth : r₁.depth ≠ 0 := by
    rw [hopen.depth]
    exact Nat.succ_ne_zero _
  obtain ⟨r₂, h₂⟩ := hbody hopen.faces hopen.start hdepth
  obtain ⟨r₃, h₃⟩ := hclose _ _ r₂ h₂.faces (h₂.start.trans hopen.start)
  have hback : r₂.depth - 1 = r.depth := by
    rw [h₂.depth, hopen.depth]
    rfl
  rw [hback] at h₃
  have hall : TakesIn d δ rest m ([o] ++ (body ++ closing)) next here r r.depth r₃ :=
    .trans (by rwa [List.append_assoc]) (h₂.trans h₃)
  exact ⟨r₃, hall⟩

/-- Reading goes through what is nested, and as many blocks are open after it as before it. -/
theorem takesIn_nested (hδ : δ.IsPlain d) {ls : List Lexeme} (hls : Nested δ ls) {e : List Char}
    (he : Text.sameWord e "END".toList = true) (hstart : r.start = some start)
    (h : Faces d δ rest m (ls ++ .word e :: next) here r) (hdepth : r.depth ≠ 0) :
    ∃ r', TakesIn d δ rest m ls (.word e :: next) here r r.depth r' := by
  induction hls generalizing m next here r e with
  | nil => exact ⟨r, .refl _ _ _, rfl, rfl, rfl, h⟩
  | @plain l ls hl hls ih =>
      obtain ⟨r₁, h₁⟩ := takesIn_of_isPlain hδ hstart h (Bool.or_eq_true_iff.2 (.inl hl))
      exact h₁.andThen (ih he (h₁.start.trans hstart) h₁.faces (h₁.depth ▸ hdepth))
  | delimiter hls ih =>
      obtain ⟨r₁, h₁⟩ := takesIn_delimiter hδ hstart h hdepth
      exact h₁.andThen (ih he (h₁.start.trans hstart) h₁.faces (h₁.depth ▸ hdepth))
  | @closer e' w gap ls he' hgap hw hsetOff hls ih =>
      rw [List.cons_append, List.append_assoc, List.cons_append] at h
      obtain ⟨r₁, h₁⟩ := takesIn_taking hδ hstart h he' hgap
        (Bool.or_eq_true_iff.2 (.inr hw)) (setOff_append (l := .word e) hsetOff nofun next)
        (by simp)
      rw [if_pos hw] at h₁
      have hall := h₁.andThen (ih he (h₁.start.trans hstart) h₁.faces (h₁.depth ▸ hdepth))
      rwa [List.cons_append, List.append_assoc] at hall
  | @block b e' body ls hb hopens hbody he' hbare hls ihbody ih =>
      rw [List.cons_append, List.append_assoc, List.cons_append] at h
      obtain ⟨r₁, h₁⟩ := takesIn_begin hδ hstart h hb (opens_append he' hopens _)
        (unspaced_append_ne_nil _ _ rfl)
      obtain ⟨r₂, h₂⟩ := takesIn_enclosed [.word e'] h₁
        (fun hfaces hsame hopen => ihbody he' (hsame.trans hstart) hfaces hopen)
        (fun _ _ _ hfaces hsame => takesIn_end hδ (hsame.trans hstart) hfaces he'
          (bare_append he hbare next) (unspaced_append_ne_nil _ _ rfl))
      have hall := h₂.andThen (ih he (h₂.start.trans hstart) h₂.faces (h₂.depth ▸ hdepth))
      rwa [List.cons_append, List.append_assoc] at hall
  | @case c e' body ls hc hbody he' hbare hls ihbody ih =>
      rw [List.cons_append, List.append_assoc, List.cons_append] at h
      obtain ⟨r₁, h₁⟩ := takesIn_case hδ hstart h hc
      obtain ⟨r₂, h₂⟩ := takesIn_enclosed [.word e'] h₁
        (fun hfaces hsame hopen => ihbody he' (hsame.trans hstart) hfaces hopen)
        (fun _ _ _ hfaces hsame => takesIn_end hδ (hsame.trans hstart) hfaces he'
          (bare_append he hbare next) (unspaced_append_ne_nil _ _ rfl))
      have hall := h₂.andThen (ih he (h₂.start.trans hstart) h₂.faces (h₂.depth ▸ hdepth))
      rwa [List.cons_append, List.append_assoc] at hall
  | @endCase c e' w body gap ls hc hbody he' hgap hw hsetOff hls ihbody ih =>
      have hinner : Statement.isOneOf w innerBlocks = false := isOneOf_of_sameWord hw (by decide)
      have hclosing : (Lexeme.word c :: (body ++ .word e' :: (gap ++ .word w :: ls))) ++
          .word e :: next =
            .word c :: (body ++ ((.word e' :: (gap ++ [.word w])) ++ (ls ++ .word e :: next))) := by
        simp
      rw [hclosing] at h
      obtain ⟨r₁, h₁⟩ := takesIn_case hδ hstart h hc
      obtain ⟨r₂, h₂⟩ := takesIn_enclosed (.word e' :: (gap ++ [.word w])) h₁
        (fun hfaces hsame hopen => ihbody he' (hsame.trans hstart) hfaces hopen)
        (fun _ _ r₂ hfaces hsame => by
          rw [List.cons_append, List.append_assoc] at hfaces
          have hend := takesIn_taking hδ (hsame.trans hstart) hfaces he' hgap
            (Bool.or_eq_true_iff.2 (.inl hw)) (setOff_append (l := .word e) hsetOff nofun next)
            (by simp)
          rwa [hinner, if_neg Bool.false_ne_true] at hend)
      have hall := h₂.andThen (ih he (h₂.start.trans hstart) h₂.faces (h₂.depth ▸ hdepth))
      have hassoc : (Lexeme.word c :: (body ++ .word e' :: (gap ++ [.word w]))) ++ ls =
          .word c :: (body ++ .word e' :: (gap ++ .word w :: ls)) := by
        simp
      rwa [hassoc] at hall

end

end Statement

end SchemaDrift
