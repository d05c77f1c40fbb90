import SchemaDrift.Proofs.Letters
import SchemaDrift.Proofs.Lexemes
import SchemaDrift.Proofs.Lossless

namespace SchemaDrift

open Statement

namespace Lexeme

theorem flatMap_shown {δ : Delimiter} {ls : List Lexeme} (h : ∀ l ∈ ls, ∀ run, l ≠ .comment run) :
    ls.flatMap (shown δ) = texts δ ls := by
  have hmap : ls.map (shown δ) = ls.map (text δ) := by
    refine List.map_congr_left fun l hl => ?_
    cases l with
    | comment run => exact absurd rfl (h _ hl run)
    | blank | delimiter | quoted | word | mark => rfl
  rw [List.flatMap, hmap]
  rfl

def isOneOf (keywords : List String) : Lexeme → Bool
  | word w => Statement.isOneOf w keywords
  | _ => false

def isPlain : Lexeme → Bool
  | blank _ | quoted _ | mark _ => true
  | word w => !Statement.isOneOf w ["BEGIN", "CASE", "END"]
  | delimiter | comment _ => false

def isFiller : Lexeme → Bool
  | blank _ | comment _ => true
  | _ => false

theorem isFiller_of_isBlank {l : Lexeme} (h : l.isBlank = true) : l.isFiller = true := by
  cases l with
  | blank => rfl
  | comment | delimiter | quoted | word | mark => cases h

def opens (ls : List Lexeme) : Bool :=
  (unspaced ls).head?.all fun l => l != .delimiter && !l.isOneOf transactionWords

def bare (ls : List Lexeme) : Bool :=
  (unspaced ls).head?.all fun l => !l.isOneOf ("CASE" :: innerBlocks)

def setOff (δ : Delimiter) (ls : List Lexeme) : Bool :=
  !Piece.isWordChar δ.head || ls.head? != some .delimiter

/-- What may stand between `BEGIN` and its `END`. -/
inductive Nested (δ : Delimiter) : List Lexeme → Prop
  | nil : Nested δ []
  | plain {l : Lexeme} {ls : List Lexeme} (hl : l.isPlain = true) (h : Nested δ ls) :
      Nested δ (l :: ls)
  | delimiter {ls : List Lexeme} (h : Nested δ ls) : Nested δ (.delimiter :: ls)
  /-- `END IF` and its like. -/
  | closer {e w : List Char} {gap ls : List Lexeme} (he : Text.sameWord e "END".toList = true)
      (hgap : ∀ l ∈ gap, l.isBlank = true) (hw : Statement.isOneOf w innerBlocks = true)
      (hsetOff : setOff δ ls = true) (h : Nested δ ls) :
      Nested δ (.word e :: (gap ++ .word w :: ls))
  | block {b e : List Char} {body ls : List Lexeme} (hb : Text.sameWord b "BEGIN".toList = true)
      (hopens : opens body = true) (hbody : Nested δ body)
      (he : Text.sameWord e "END".toList = true) (hbare : bare ls = true) (h : Nested δ ls) :
      Nested δ (.word b :: (body ++ .word e :: ls))
  | case {c e : List Char} {body ls : List Lexeme} (hc : Text.sameWord c "CASE".toList = true)
      (hbody : Nested δ body) (he : Text.sameWord e "END".toList = true) (hbare : bare ls = true)
      (h : Nested δ ls) : Nested δ (.word c :: (body ++ .word e :: ls))
  | endCase {c e w : List Char} {body gap ls : List Lexeme}
      (hc : Text.sameWord c "CASE".toList = true) (hbody : Nested δ body)
      (he : Text.sameWord e "END".toList = true) (hgap : ∀ l ∈ gap, l.isBlank = true)
      (hw : Text.sameWord w "CASE".toList = true) (hsetOff : setOff δ ls = true)
      (h : Nested δ ls) : Nested δ (.word c :: (body ++ .word e :: (gap ++ .word w :: ls)))

end Lexeme

structure Memory where
  last : List Char
  before : List Char

namespace Memory

def empty : Memory := ⟨[], []⟩

def isRow (m : Memory) : Bool :=
  Text.sameWord m.last "ROW".toList && Text.sameWord m.before "AS".toList

def after (m : Memory) : Lexeme → Memory
  | .word w => ⟨w, m.last⟩
  | _ => m

def afterAll (m : Memory) (ls : List Lexeme) : Memory := ls.foldl after m

theorem afterAll_append (m : Memory) (ls ls' : List Lexeme) :
    m.afterAll (ls ++ ls') = (m.afterAll ls).afterAll ls' := List.foldl_append

/-- No `BEGIN` and no `END` for which the last two words before it are `AS` and `ROW`, whatever else
stands between these words. -/
def rowFree : Memory → List Lexeme → Bool
  | _, [] => true
  | m, l :: ls => !(m.isRow && l.isOneOf ["BEGIN", "END"]) && rowFree (m.after l) ls

theorem rowFree_append {m : Memory} {ls ls' : List Lexeme} :
    rowFree m (ls ++ ls') = (rowFree m ls && rowFree (m.afterAll ls) ls') := by
  induction ls generalizing m with
  | nil => exact (Bool.true_and _).symm
  | cons l ls ih =>
      rw [List.cons_append, rowFree, rowFree, ih, Bool.and_assoc]
      rfl

theorem after_of_isFiller {l : Lexeme} (h : l.isFiller = true) (m : Memory) : m.after l = m := by
  cases l with
  | blank | comment => rfl
  | delimiter | quoted | word | mark => cases h

theorem afterAll_of_isFiller {ls : List Lexeme} (h : ∀ l ∈ ls, l.isFiller = true) (m : Memory) :
    m.afterAll ls = m := by
  induction ls generalizing m with
  | nil => rfl
  | cons l ls ih =>
      obtain ⟨hl, hls⟩ := List.forall_mem_cons.1 h
      change (m.after l).afterAll ls = m
      rw [ih hls, after_of_isFiller hl]

theorem rowFree_of_isFiller {ls : List Lexeme} (h : ∀ l ∈ ls, l.isFiller = true) (m : Memory) :
    m.rowFree ls = true := by
  induction ls generalizing m with
  | nil => rfl
  | cons l ls ih =>
      obtain ⟨hl, hls⟩ := List.forall_mem_cons.1 h
      rw [rowFree, ih hls, Bool.and_true, Bool.not_eq_true', Bool.and_eq_false_iff]
      refine .inr ?_
      cases l with
      | blank | comment => rfl
      | delimiter | quoted | word | mark => cases hl

end Memory

namespace Statement

variable {d : Dialect} {δ : Delimiter} {here : Spot} {r r' : Draft} {m : Memory}

structure Draft.Recalls (r : Draft) (m : Memory) : Prop where
  lastRow : Text.sameWord r.lastWord "ROW".toList = Text.sameWord m.last "ROW".toList
  lastAs : Text.sameWord r.lastWord "AS".toList = Text.sameWord m.last "AS".toList
  beforeAs : Text.sameWord r.lastWord "ROW".toList = true →
    Text.sameWord r.wordBefore "AS".toList = Text.sameWord m.before "AS".toList

namespace Draft.Recalls

theorem afterRow_eq (h : r.Recalls m) : r.afterRow = m.isRow := by
  rw [afterRow, Memory.isRow]
  cases hrow : Text.sameWord r.lastWord "ROW".toList with
  | true => rw [← h.lastRow, hrow, h.beforeAs hrow]
  | false => rw [← h.lastRow, hrow, Bool.false_and, Bool.false_and]

theorem congr (h : r.Recalls m) (hlast : r'.lastWord = r.lastWord)
    (hbefore : r'.wordBefore = r.wordBefore) : r'.Recalls m := by
  refine ⟨?_, ?_, ?_⟩
  · rw [hlast]
    exact h.lastRow
  · rw [hlast]
    exact h.lastAs
  · rw [hlast, hbefore]
    exact h.beforeAs

theorem word (h : r.Recalls m) {w : List Char} (hlast : r'.lastWord = w)
    (hbefore : r'.wordBefore = r.lastWord) : r'.Recalls (m.after (.word w)) := by
  refine ⟨?_, ?_, fun _ => ?_⟩
  · rw [hlast]
    rfl
  · rw [hlast]
    rfl
  · rw [hbefore]
    exact h.lastAs

/-- `END` and the word that it takes along. -/
theorem closer {e w : List Char} (hlast : r'.lastWord = e)
    (he : Text.sameWord e "END".toList = true)
    (hw : Statement.isOneOf w ("CASE" :: innerBlocks) = true) (m : Memory) :
    r'.Recalls (m.after (.word w)) := by
  have hnot {k : String} (hk : ∀ k' ∈ "CASE" :: innerBlocks,
      Text.asciiUpper k'.toList ≠ Text.asciiUpper k.toList) :
      Text.sameWord w k.toList = false := by
    obtain ⟨k', hk', hsame⟩ := List.any_eq_true.1 hw
    exact Text.sameWord_of_ne hsame (hk k' hk')
  have hrow : Text.sameWord e "ROW".toList = false := Text.sameWord_of_ne he (by decide)
  refine ⟨?_, ?_, ?_⟩
  · rw [hlast, hrow]
    exact (hnot (by decide)).symm
  · rw [hlast, Text.sameWord_of_ne he (by decide)]
    exact (hnot (by decide)).symm
  · rw [hlast, hrow]
    exact nofun

end Draft.Recalls

section

open Lexeme

variable {w rest : List Char}

theorem isOneOf_of_sameWord {k : String} {keywords : List String}
    (h : Text.sameWord w k.toList = true)
    (hk : ∀ k' ∈ keywords, Text.asciiUpper k.toList ≠ Text.asciiUpper k'.toList) :
    isOneOf w keywords = false := by
  refine Bool.eq_false_iff.2 fun hone => ?_
  obtain ⟨k', hk', hsame⟩ := List.any_eq_true.1 hone
  rw [Text.sameWord_of_ne h (hk k' hk')] at hsame
  cases hsame

theorem blockEffect_begin (hw : Text.sameWord w "BEGIN".toList = true) (hrow : r.afterRow = false)
    (hopens : opensBlock δ rest = true) : blockEffect δ r w rest = (r.depth + 1, 0) := by
  rw [blockEffect, if_pos hw, hrow, hopens]
  rfl

theorem blockEffect_case (hw : Text.sameWord w "CASE".toList = true) :
    blockEffect δ r w rest = (r.depth + 1, 0) := by
  rw [blockEffect, Text.sameWord_of_ne hw (by decide), if_neg Bool.false_ne_true, if_pos hw]

theorem blockEffect_other (hw : isOneOf w ["BEGIN", "CASE", "END"] = false) :
    blockEffect δ r w rest = (r.depth, 0) := by
  have hnot (k : String) (hk : k ∈ ["BEGIN", "CASE", "END"]) :
      Text.sameWord w k.toList = false :=
    Bool.eq_false_iff.2 fun h => Bool.eq_false_iff.1 hw (List.any_eq_true.2 ⟨k, hk, h⟩)
  rw [blockEffect, hnot "BEGIN" (by decide), hnot "CASE" (by decide), hnot "END" (by decide)]
  rfl

theorem blockEffect_end (hw : Text.sameWord w "END".toList = true) (hrow : r.afterRow = false) :
    blockEffect δ r w rest =
      match Piece.headWord? (rest.dropWhile Text.isBlank) with
      | none => (r.depth - 1, 0)
      | some closed =>
          if isOneOf closed innerBlocks then
            (r.depth, (rest.takeWhile Text.isBlank).length + closed.length)
          else if Text.sameWord closed "CASE".toList then
            (r.depth - 1, (rest.takeWhile Text.isBlank).length + closed.length)
          else (r.depth - 1, 0) := by
  rw [blockEffect, Text.sameWord_of_ne hw (by decide), if_neg Bool.false_ne_true,
    Text.sameWord_of_ne hw (by decide), if_neg Bool.false_ne_true, hw, hrow, if_pos (by decide)]
  exact drop_length_takeWhile Text.isBlank rest ▸ rfl

/-- A word that goes on with no letter is no keyword. -/
theorem isOneOf_append {tail : List Char} {keywords : List String}
    (hkeywords : ∀ k ∈ keywords, (Text.asciiUpper k.toList).all Piece.isWordStart = true)
    (htail : ∀ c ∈ tail.head?, Piece.isWordStart c = false) (htail' : tail ≠ []) :
    isOneOf (w ++ tail) keywords = false := by
  obtain ⟨c, tail, rfl⟩ := List.exists_cons_of_ne_nil htail'
  refine Bool.eq_false_iff.2 fun h => ?_
  obtain ⟨k, hk, hsame⟩ := List.any_eq_true.1 h
  have hmem : c.toUpper ∈ Text.asciiUpper k.toList := by
    rw [← beq_iff_eq.1 hsame]
    exact List.mem_map_of_mem (List.mem_append_right _ List.mem_cons_self)
  have hupper : Piece.isWordStart c.toUpper = Piece.isWordStart c :=
    Text.apply_toUpper (by decide) c
  have hstart := List.all_eq_true.1 (hkeywords k hk) _ hmem
  rw [hupper, htail c rfl] at hstart
  cases hstart

section

variable {behind : List Char} {ls more : List Lexeme} {l : Lexeme} (hδ : δ.IsPlain d)
  (h : Legible d δ behind (.word w :: ls) rest) (hls : unspaced ls = l :: more)

include hδ h hls

/-- No keyword comes next if none does among the lexemes. -/
theorem isOneOf_headWord? {keywords : List String}
    (hkeywords : ∀ k ∈ keywords, (Text.asciiUpper k.toList).all Piece.isWordStart = true)
    (hl : l.isOneOf keywords = false) :
    ∀ w' ∈ Piece.headWord? ((texts δ ls ++ rest).dropWhile Text.isBlank),
      isOneOf w' keywords = false := by
  obtain ⟨hword, hnone⟩ := headWord?_after hδ h hls
  intro w' hw'
  by_cases hl' : ∃ run, l = .word run
  · obtain ⟨run, rfl⟩ := hl'
    obtain ⟨tail, hhead, htail⟩ := hword run rfl
    rw [hhead] at hw'
    obtain rfl : run ++ tail = w' := Option.some.inj hw'
    by_cases hnil : tail = []
    · rw [hnil, List.append_nil]
      exact hl
    · exact isOneOf_append hkeywords htail hnil
  · rw [hnone fun run hrun => hl' ⟨run, hrun⟩] at hw'
    cases hw'

theorem opensBlock_texts (hdelimiter : l ≠ .delimiter) (hl : l.isOneOf transactionWords = false) :
    opensBlock δ (texts δ ls ++ rest) = true := by
  have hword := isOneOf_headWord? hδ h hls (by decide) hl
  have hstands := stands_of_unspaced h.2 hls
  obtain ⟨c, cs, hc, -⟩ := hstands.next hδ fun hfalse : true = false => nomatch hfalse
  have hnext : (texts δ ls ++ rest).dropWhile Text.isBlank =
      l.text δ ++ (texts δ more ++ rest) := by
    rw [(span_texts hδ h.2 (by rw [hls]; exact List.cons_ne_nil _ _)).2, hls, texts_cons,
      List.append_assoc]
  rw [hnext] at hword
  have hempty : (l.text δ ++ (texts δ more ++ rest)).isEmpty = false := by
    rw [hc]
    rfl
  have hstarts : Text.startsWith (l.text δ ++ (texts δ more ++ rest)) δ.toList = false :=
    Bool.eq_false_iff.2 fun h =>
      hstands.not_delimiter hδ hdelimiter (List.isPrefixOf_iff_prefix.1 h)
  unfold opensBlock
  dsimp only
  rw [hnext, hempty, hstarts, Bool.false_or, if_neg Bool.false_ne_true]
  cases hhead : Piece.headWord? (l.text δ ++ (texts δ more ++ rest)) with
  | none => rfl
  | some w' =>
      dsimp only
      rw [hword w' hhead]
      rfl

/-- `END` with no word that it takes along. -/
theorem blockEffect_bare (hw : Text.sameWord w "END".toList = true) (hrow : r.afterRow = false)
    (hl : l.isOneOf ("CASE" :: innerBlocks) = false) :
    blockEffect δ r w (texts δ ls ++ rest) = (r.depth - 1, 0) := by
  have hword := isOneOf_headWord? hδ h hls (by decide) hl
  rw [blockEffect_end hw hrow]
  cases hhead : Piece.headWord? ((texts δ ls ++ rest).dropWhile Text.isBlank) with
  | none => rfl
  | some w' =>
      obtain ⟨hcase, hinner⟩ := Bool.or_eq_false_iff.1 (hword w' hhead)
      have hcase : Text.sameWord w' "CASE".toList = false := hcase
      have hinner : isOneOf w' innerBlocks = false := hinner
      dsimp only
      rw [hinner, hcase, if_neg Bool.false_ne_true, if_neg Bool.false_ne_true]

end

/-- A word that is set off goes on with no letter. -/
theorem not_isWordChar_of_setOff {behind behind' closed : List Char} {ls : List Lexeme}
    (hδ : δ.IsPlain d) (h : (Lexeme.word closed).Stands d δ behind (texts δ ls ++ rest))
    (hlegible : Legible d δ behind' ls rest) (hls : ls ≠ []) (hsetOff : setOff δ ls = true) :
    ∀ x ∈ (texts δ ls ++ rest).head?, Piece.isWordChar x = false := by
  intro x hx
  refine Bool.eq_false_iff.2 fun hword => ?_
  have hprefix : δ.toList <+: texts δ ls ++ rest := by
    cases h with
    | word _ _ _ _ hrest => exact hrest x hx hword
  obtain ⟨l, ls, rfl⟩ := List.exists_cons_of_ne_nil hls
  rw [texts_cons, List.append_assoc] at hprefix hx
  have hdelimiter : l = .delimiter := by
    by_contra hne
    exact hlegible.1.not_delimiter hδ hne hprefix
  obtain ⟨more, hmore⟩ := hprefix
  rw [← hmore] at hx
  obtain rfl : δ.head = x := Option.some.inj hx
  rw [setOff, hword, hdelimiter] at hsetOff
  cases hsetOff

/-- `END` with a word that it takes along. -/
theorem blockEffect_taking {behind closed : List Char} {gap ls : List Lexeme} (hδ : δ.IsPlain d)
    (h : Legible d δ behind (.word w :: (gap ++ .word closed :: ls)) rest)
    (hgap : ∀ l ∈ gap, l.isBlank = true) (hsetOff : setOff δ ls = true) (hls : ls ≠ [])
    (hw : Text.sameWord w "END".toList = true) (hrow : r.afterRow = false)
    (hclosed : isOneOf closed ("CASE" :: innerBlocks) = true) :
    blockEffect δ r w (texts δ (gap ++ .word closed :: ls) ++ rest) =
      (if isOneOf closed innerBlocks then r.depth else r.depth - 1,
        (texts δ (gap ++ [.word closed])).length) := by
  have hdrop : unspaced (gap ++ .word closed :: ls) = .word closed :: ls := by
    rw [unspaced, List.dropWhile_append_of_pos hgap]
    exact List.dropWhile_cons_of_neg Bool.false_ne_true
  have htake : (gap ++ .word closed :: ls).takeWhile Lexeme.isBlank = gap := by
    rw [List.takeWhile_append_of_pos hgap, List.takeWhile_cons_of_neg Bool.false_ne_true,
      List.append_nil]
  obtain ⟨hblanks, hnext⟩ := span_texts hδ h.2 (by rw [hdrop]; exact List.cons_ne_nil _ _)
  have hstands := stands_of_unspaced h.2 hdrop
  have hend := not_isWordChar_of_setOff hδ hstands (legible_append.1 h.2).2.2 hls hsetOff
  have hhead : Piece.headWord? ((texts δ (gap ++ .word closed :: ls) ++ rest).dropWhile
      Text.isBlank) = some closed := by
    rw [hnext, hdrop, texts_cons, List.append_assoc]
    exact hstands.headWord?_alone hend
  rw [blockEffect_end hw hrow, hhead, hblanks, htake]
  dsimp only
  have hlength : (texts δ gap).length + closed.length =
      (texts δ (gap ++ [.word closed])).length := by
    rw [texts_append, List.length_append, texts_singleton]
    rfl
  split
  · rw [hlength]
  · next hinner =>
      have hcase : Text.sameWord closed "CASE".toList = true :=
        (Bool.or_eq_true_iff.1 hclosed).resolve_right hinner
      rw [if_pos hcase, hlength]

end

end Statement

end SchemaDrift
