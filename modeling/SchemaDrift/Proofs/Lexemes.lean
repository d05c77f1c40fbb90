import SchemaDrift.Proofs.Pieces

namespace SchemaDrift

inductive Lexeme
  | blank (c : Char)
  | comment (run : List Char)
  | delimiter
  | quoted (run : List Char)
  | word (run : List Char)
  | mark (c : Char)
deriving DecidableEq, Repr

structure Delimiter.IsPlain (d : Dialect) (δ : Delimiter) : Prop where
  wordStart : Piece.isWordStart δ.head = false
  blank : Text.isBlank δ.head = false
  comment : ∀ rest, ¬ StartsComment d (δ.toList ++ rest)

def Delimiter.usual : List Delimiter := [.semicolon, ⟨'@', []⟩, ⟨'$', ['$']⟩, ⟨'/', ['/']⟩]

theorem Delimiter.isPlain_of_mem_usual {δ : Delimiter} (h : δ ∈ usual) (d : Dialect) :
    δ.IsPlain d := by
  have hcomment (rest : List Char) : ¬ StartsComment d (δ.toList ++ rest) := by
    rw [toList, List.cons_append, Piece.startsComment_cons_iff]
    simp only [usual, List.mem_cons, List.not_mem_nil, or_false] at h
    rcases h with rfl | rfl | rfl | rfl <;> simp [semicolon]
  simp only [usual, List.mem_cons, List.not_mem_nil, or_false] at h
  rcases h with rfl | rfl | rfl | rfl <;> exact ⟨by decide, by decide, hcomment⟩

namespace Lexeme

def text (δ : Delimiter) : Lexeme → List Char
  | blank c | mark c => [c]
  | comment run | quoted run | word run => run
  | delimiter => δ.toList

def shown (δ : Delimiter) : Lexeme → List Char
  | comment _ => [' ']
  | l => l.text δ

def piece : Lexeme → Piece
  | blank _ => .blank
  | comment _ => .comment none
  | delimiter => .delimiter
  | quoted _ => .quoted
  | word _ => .word
  | mark _ => .mark

inductive Stands (d : Dialect) (δ : Delimiter) (behind : List Char) : Lexeme → List Char → Prop
  | blank {c : Char} {rest : List Char} (hc : Text.isBlank c = true) :
      Stands d δ behind (.blank c) rest
  | comment {run rest : List Char} (h : Comment d run rest none) :
      Stands d δ behind (.comment run) rest
  | delimiter {rest : List Char} : Stands d δ behind .delimiter rest
  | quoted {run rest : List Char} (h : Quoted d behind run rest) (hδ : ¬ δ.toList <+: run ++ rest) :
      Stands d δ behind (.quoted run) rest
  | word {c : Char} {cs rest : List Char} (hstart : Piece.isWordStart c = true)
      (hbehind : NoWordBefore behind) (hrun : ∀ x ∈ cs, Piece.isWordChar x = true)
      (hδ : ∀ k ≤ cs.length, ¬ δ.toList <+: ((c :: cs) ++ rest).drop k)
      (hrest : ∀ x ∈ rest.head?, Piece.isWordChar x = true → δ.toList <+: rest) :
      Stands d δ behind (.word (c :: cs)) rest
  | mark {c : Char} {rest : List Char} (hblank : Text.isBlank c = false)
      (hcomment : ¬ StartsComment d (c :: rest)) (hδ : ¬ δ.toList <+: c :: rest)
      (hquote : ∀ what, ¬ StartsQuote d behind (c :: rest) what)
      (hword : Piece.isWordStart c = true → ¬ NoWordBefore behind) :
      Stands d δ behind (.mark c) rest

end Lexeme

namespace Piece

variable {d : Dialect} {δ : Delimiter} {started : Bool} {behind rest : List Char}

theorem takeWhile_line {body : List Char} (hbody : '\n' ∉ body) (hrest : EndsLine rest) :
    (body ++ rest).takeWhile (· != '\n') = body := by
  have hline : ∀ c ∈ body, (c != '\n') = true := by
    intro c hc
    rw [bne_iff_ne]
    rintro rfl
    exact hbody hc
  rw [List.takeWhile_append_of_pos hline]
  cases hrest with
  | nil => exact List.append_nil body
  | cons rest => exact List.append_nil body

theorem next_of_comment {run : List Char} {sets : Option Delimiter} (h : Comment d run rest sets) :
    ∃ c cs, run = c :: cs ∧
      next d δ started behind c (cs ++ rest) = .ok (.comment sets, run.length) := by
  cases h with
  | @line body _ hbody hrest =>
      refine ⟨'-', '-' :: body, rfl, ?_⟩
      have hdashes : ('-' == '-' && ('-' :: body ++ rest).head? == some '-') = true := rfl
      unfold next
      rw [if_pos hdashes]
      dsimp only [List.cons_append, List.tail_cons]
      rw [takeWhile_line hbody hrest]
      rfl
  | @hash body _ hd hbody hrest =>
      refine ⟨'#', body, rfl, ?_⟩
      have hdashes : ('#' == '-' && (body ++ rest).head? == some '-') = false := rfl
      have hhash : ('#' == '#' && d.hashComments) = true := hd
      unfold next
      rw [hdashes, if_neg Bool.false_ne_true, if_pos hhash, Text.lineSize,
        takeWhile_line hbody hrest]
      rfl
  | @block body _ hbody =>
      refine ⟨'/', '*' :: body, rfl, ?_⟩
      have hdashes : ('/' == '-' && ('*' :: body ++ rest).head? == some '-') = false := rfl
      have hhash : ('/' == '#' && d.hashComments) = false := rfl
      have hblock : ('/' == '/' && ('*' :: body ++ rest).head? == some '*') = true := rfl
      unfold next
      rw [hdashes, if_neg Bool.false_ne_true, hhash, if_neg Bool.false_ne_true, if_pos hblock]
      dsimp only [List.cons_append, List.tail_cons]
      rw [commentSize_of_commentTail hbody]
      rfl

/-- What is no blank, comment, directive or delimiter is part of a statement. -/
theorem next_eq_ofCode {c : Char} {cs : List Char} (hblank : Text.isBlank c = false)
    (hcomment : ¬ StartsComment d (c :: cs)) (hδ : ¬ δ.toList <+: c :: cs)
    (hdirective : started = false → directive? d (c :: cs) = none) :
    next d δ started behind c cs = ofCode d δ behind c cs := by
  rw [startsComment_cons_iff, not_or, not_or] at hcomment
  obtain ⟨hdashes, hblock, hhash⟩ := hcomment
  have hnone : (if started = true then none else directive? d (c :: cs)) = none := by
    cases started with
    | true => rfl
    | false => exact hdirective rfl
  unfold next
  rw [if_neg hdashes, if_neg hhash, if_neg hblock, if_neg (Bool.eq_false_iff.1 hblank), hnone]
  exact if_neg fun h => hδ (List.isPrefixOf_iff_prefix.1 h)

theorem wordTailSize_of {cs : List Char} (hrun : ∀ x ∈ cs, isWordChar x = true)
    (hδ : ∀ k < cs.length, ¬ δ.toList <+: (cs ++ rest).drop k)
    (hrest : ∀ x ∈ rest.head?, isWordChar x = true → δ.toList <+: rest) :
    wordTailSize δ (cs ++ rest) = cs.length := by
  induction cs with
  | nil =>
      cases rest with
      | nil => rfl
      | cons x rest =>
          rw [List.nil_append, wordTailSize, if_neg]
          · rfl
          · rw [Bool.and_eq_true, Bool.not_eq_true']
            rintro ⟨hx, hnot⟩
            have hprefix := hrest x rfl hx
            rw [Text.startsWith, List.isPrefixOf_iff_prefix.2 hprefix] at hnot
            cases hnot
  | cons c cs ih =>
      have hnot : Text.startsWith (c :: (cs ++ rest)) δ.toList = false :=
        Bool.eq_false_iff.2 fun h =>
          hδ 0 (Nat.succ_pos _) (List.isPrefixOf_iff_prefix.1 h)
      rw [List.cons_append, wordTailSize, hrun c List.mem_cons_self, hnot, Bool.not_false,
        Bool.and_true, if_pos rfl, ih (fun x hx => hrun x (List.mem_cons_of_mem c hx))
          fun k hk => hδ (k + 1) (Nat.succ_lt_succ hk)]
      rfl

theorem isBlank_of_isWordStart {c : Char} (hc : isWordStart c = true) : Text.isBlank c = false := by
  refine Bool.eq_false_iff.2 fun h => ?_
  simp only [Text.isBlank, Bool.or_eq_true, beq_iff_eq] at h
  rcases h with (((rfl | rfl) | rfl) | rfl) | rfl <;> exact absurd hc (by decide)

theorem not_isWordChar_of_isBlank {c : Char} (hc : Text.isBlank c = true) :
    isWordChar c = false := by
  simp only [Text.isBlank, Bool.or_eq_true, beq_iff_eq] at hc
  rcases hc with (((rfl | rfl) | rfl) | rfl) | rfl <;> decide

theorem not_startsComment_of_isWordStart {c : Char} {cs : List Char} (hc : isWordStart c = true) :
    ¬ StartsComment d (c :: cs) := by
  rw [startsComment_cons_iff]
  rintro (h | h | h)
  all_goals
    obtain rfl := beq_iff_eq.1 (Bool.and_eq_true_iff.1 h).1
    exact absurd hc (by decide)

theorem next_of_quoted {run : List Char} (h : Quoted d behind run rest)
    (hδ : ¬ δ.toList <+: run ++ rest)
    (hdirective : started = false → directive? d (run ++ rest) = none) :
    ∃ c cs, run = c :: cs ∧
      next d δ started behind c (cs ++ rest) = .ok (.quoted, run.length) := by
  cases h with
  | @quote c close backslash what body _ hq hbody =>
      have hblank : Text.isBlank c = false := by cases hq <;> rfl
      have hcomment : ¬ StartsComment d (c :: (body ++ rest)) := by
        rw [startsComment_cons_iff]
        cases hq <;> simp
      refine ⟨c, body, rfl, ?_⟩
      rw [next_eq_ofCode hblank hcomment hδ hdirective, ofCode_of_quote hq,
        Text.quotedSize_of_quoteTail hq.close_ne hbody]
      rfl
  | @dollar tag body _ hd htag hfirst =>
      have hpos := List.length_pos_iff.2 (ne_nil_of_isTag htag)
      obtain ⟨cs, hcs⟩ : ∃ cs, tag = '$' :: cs := by
        obtain ⟨name, rfl, -⟩ := htag
        exact ⟨_, rfl⟩
      have hrun : tag ++ (body ++ tag) ++ rest = '$' :: ((cs ++ (body ++ tag)) ++ rest) := by
        rw [hcs]
        rfl
      have hcomment : ¬ StartsComment d ('$' :: ((cs ++ (body ++ tag)) ++ rest)) := by
        rw [startsComment_cons_iff]
        simp
      rw [hrun] at hδ hdirective
      refine ⟨'$', cs ++ (body ++ tag), by rw [hcs]; rfl, ?_⟩
      have hs : '$' :: ((cs ++ (body ++ tag)) ++ rest) = tag ++ (body ++ (tag ++ rest)) := by
        rw [← hrun, List.append_assoc, List.append_assoc]
      rw [next_eq_ofCode rfl hcomment hδ hdirective, ofCode_of_tag hd δ behind htag hs,
        (Text.indexOf?_eq_some_iff (ne_nil_of_isTag htag)).2 ⟨body, rest, rfl, rfl, hfirst⟩]
      simp only [Option.map_some, closed, List.length_append]
      rw [Nat.sub_add_cancel (by omega), Nat.add_assoc]

/-- A word that holds no delimiter. -/
theorem next_of_word {c : Char} {cs : List Char} (hstart : isWordStart c = true)
    (hbehind : NoWordBefore behind) (hrun : ∀ x ∈ cs, isWordChar x = true)
    (hδ : ∀ k ≤ cs.length, ¬ δ.toList <+: (c :: (cs ++ rest)).drop k)
    (hrest : ∀ x ∈ rest.head?, isWordChar x = true → δ.toList <+: rest)
    (hdirective : started = false → directive? d (c :: (cs ++ rest)) = none) :
    next d δ started behind c (cs ++ rest) = .ok (.word, cs.length + 1) := by
  have htail : wordTailSize δ (cs ++ rest) = cs.length :=
    wordTailSize_of hrun (fun k hk => hδ (k + 1) hk) hrest
  rw [next_eq_ofCode (isBlank_of_isWordStart hstart) (not_startsComment_of_isWordStart hstart)
      (hδ 0 (Nat.zero_le _)) hdirective,
    ofCode_of_not_startsQuote (not_startsQuote_of_isWordStart hstart), hstart,
    noWordBefore_iff.1 hbehind, htail]
  rfl

end Piece

namespace Lexeme

variable {d : Dialect} {δ : Delimiter} {started : Bool} {behind rest : List Char} {l : Lexeme}

/-- Scanning finds the lexeme that stands there. -/
theorem Stands.next (hδ : δ.IsPlain d) (h : l.Stands d δ behind rest)
    (hdirective : started = false → Piece.directive? d (l.text δ ++ rest) = none) :
    ∃ c cs, l.text δ = c :: cs ∧
      Piece.next d δ started behind c (cs ++ rest) = .ok (l.piece, (l.text δ).length) := by
  cases h with
  | @blank c _ hc => exact ⟨c, [], rfl, Piece.next_blank hc ..⟩
  | comment h => exact Piece.next_of_comment h
  | delimiter =>
      have hcomment := hδ.comment rest
      rw [Delimiter.toList, List.cons_append, Piece.startsComment_cons_iff, not_or, not_or]
        at hcomment
      obtain ⟨hdashes, hblock, hhash⟩ := hcomment
      have hnone : (if started = true then none
          else Piece.directive? d (δ.head :: (δ.tail ++ rest))) = none := by
        cases started with
        | true => rfl
        | false => exact hdirective rfl
      have hstarts : Text.startsWith (δ.head :: (δ.tail ++ rest)) δ.toList = true :=
        List.isPrefixOf_iff_prefix.2 (List.prefix_append δ.toList rest)
      refine ⟨δ.head, δ.tail, rfl, ?_⟩
      unfold Piece.next
      rw [if_neg hdashes, if_neg hhash, if_neg hblock, if_neg (Bool.eq_false_iff.1 hδ.blank), hnone]
      exact if_pos hstarts
  | quoted h hδ => exact Piece.next_of_quoted h hδ hdirective
  | @word c cs _ hstart hbehind hrun hδ hrest =>
      exact ⟨c, cs, rfl, Piece.next_of_word hstart hbehind hrun hδ hrest hdirective⟩
  | @mark c _ hblank hcomment hδ hquote hword =>
      refine ⟨c, [], rfl, ?_⟩
      have hnot : (Piece.isWordStart c && !((behind.head?.map Piece.isWordChar).getD false)) =
          false := by
        rw [Bool.and_eq_false_imp, Bool.not_eq_false']
        intro hstart
        rw [← Bool.not_eq_false]
        exact fun hbehind => hword hstart (Piece.noWordBefore_iff.2 hbehind)
      rw [List.nil_append, Piece.next_eq_ofCode hblank hcomment hδ hdirective,
        Piece.ofCode_of_not_startsQuote hquote, hnot]
      rfl

/-- A word between characters of no word. -/
theorem Stands.of_word {c : Char} {cs : List Char} (hstart : Piece.isWordStart c = true)
    (hbehind : (behind.head?.map Piece.isWordChar).getD false = false)
    (hrun : cs.all Piece.isWordChar = true)
    (hδ : ∀ k ≤ cs.length, ¬ δ.toList <+: ((c :: cs) ++ rest).drop k)
    (hrest : (rest.head?.map Piece.isWordChar).getD false = false) :
    (Lexeme.word (c :: cs)).Stands d δ behind rest := by
  refine .word hstart (Piece.noWordBefore_iff.2 hbehind) (List.all_eq_true.1 hrun) hδ ?_
  intro x hx hword
  rw [hx, Option.map_some, Option.getD_some, hword] at hrest
  cases hrest

/-- A character that begins nothing else. -/
theorem Stands.of_mark {c : Char} (hblank : Text.isBlank c = false)
    (hcomment : c ∉ ['-', '/', '#']) (hδ : ¬ δ.toList <+: c :: rest)
    (hquote : c ∉ ['\'', '"', '\x60', '[', '$']) (hword : Piece.isWordStart c = false) :
    (Lexeme.mark c).Stands d δ behind rest := by
  refine .mark hblank ?_ hδ (Piece.not_startsQuote_of_not_mem hquote) fun hstart => ?_
  · rw [Piece.startsComment_cons_iff]
    simp only [List.mem_cons, List.not_mem_nil, or_false, not_or] at hcomment
    rintro (h | h | h)
    · exact hcomment.1 (beq_iff_eq.1 (Bool.and_eq_true_iff.1 h).1)
    · exact hcomment.2.1 (beq_iff_eq.1 (Bool.and_eq_true_iff.1 h).1)
    · exact hcomment.2.2 (beq_iff_eq.1 (Bool.and_eq_true_iff.1 h).1)
  · rw [hword] at hstart
    cases hstart

def texts (δ : Delimiter) (ls : List Lexeme) : List Char := ls.flatMap (text δ)

theorem texts_cons (δ : Delimiter) (l : Lexeme) (ls : List Lexeme) :
    texts δ (l :: ls) = l.text δ ++ texts δ ls := rfl

theorem texts_singleton (δ : Delimiter) (l : Lexeme) : texts δ [l] = l.text δ := List.append_nil _

theorem texts_append (δ : Delimiter) (ls ls' : List Lexeme) :
    texts δ (ls ++ ls') = texts δ ls ++ texts δ ls' := List.flatMap_append

/-- Each lexeme of the sequence stands between those around it. -/
def Legible (d : Dialect) (δ : Delimiter) : List Char → List Lexeme → List Char → Prop
  | _, [], _ => True
  | behind, l :: ls, rest =>
      l.Stands d δ behind (texts δ ls ++ rest) ∧ Legible d δ ((l.text δ).reverse ++ behind) ls rest

theorem legible_append {ls ls' : List Lexeme} :
    Legible d δ behind (ls ++ ls') rest ↔ Legible d δ behind ls (texts δ ls' ++ rest) ∧
      Legible d δ ((texts δ ls).reverse ++ behind) ls' rest := by
  induction ls generalizing behind with
  | nil => exact ⟨fun h => ⟨trivial, h⟩, fun h => h.2⟩
  | cons l ls ih =>
      rw [List.cons_append, Legible, Legible, ih, texts_append, List.append_assoc, texts_cons,
        List.reverse_append, List.append_assoc, and_assoc]

def isBlank : Lexeme → Bool
  | blank _ => true
  | _ => false

def unspaced (ls : List Lexeme) : List Lexeme := ls.dropWhile isBlank

theorem Stands.isBlank_head {c : Char} {cs : List Char} (hδ : δ.IsPlain d)
    (h : l.Stands d δ behind rest) (hl : l.text δ = c :: cs) : Text.isBlank c = l.isBlank := by
  obtain ⟨c', cs', hl', hnext⟩ := h.next hδ fun hfalse : true = false => nomatch hfalse
  obtain ⟨rfl, rfl⟩ := List.cons.inj (hl.symm.trans hl')
  cases hblank : Text.isBlank c with
  | true =>
      rw [Piece.next_blank hblank] at hnext
      cases l <;> first | rfl | cases hnext
  | false =>
      cases h with
      | blank hc =>
          cases hl
          rw [hc] at hblank
          cases hblank
      | comment | delimiter | quoted | word | mark => rfl

/-- Blanks at the head of the text are the blanks at the head of the sequence. -/
theorem span_texts (hδ : δ.IsPlain d) {ls : List Lexeme} (h : Legible d δ behind ls rest)
    (hls : unspaced ls ≠ []) :
    (texts δ ls ++ rest).takeWhile Text.isBlank = texts δ (ls.takeWhile isBlank) ∧
      (texts δ ls ++ rest).dropWhile Text.isBlank = texts δ (unspaced ls) ++ rest := by
  induction ls generalizing behind with
  | nil => exact absurd rfl hls
  | cons l ls ih =>
      obtain ⟨hstands, hrest⟩ := h
      obtain ⟨c, cs, hl, -⟩ := hstands.next hδ fun hfalse : true = false => nomatch hfalse
      have hhead := hstands.isBlank_head hδ hl
      cases hblank : l.isBlank with
      | true =>
          obtain ⟨c', rfl⟩ : ∃ c', l = .blank c' := by
            cases l <;> first | exact ⟨_, rfl⟩ | cases hblank
          have hdrop : unspaced (.blank c' :: ls) = unspaced ls := rfl
          obtain ⟨rfl, rfl⟩ := List.cons.inj hl
          rw [hdrop] at hls ⊢
          obtain ⟨htake, hdropped⟩ := ih hrest hls
          have htexts : texts δ (.blank c' :: ls) ++ rest = c' :: (texts δ ls ++ rest) := rfl
          rw [hblank] at hhead
          rw [htexts, List.takeWhile_cons_of_pos hhead, List.dropWhile_cons_of_pos hhead, htake]
          exact ⟨rfl, hdropped⟩
      | false =>
          have hnot : ¬ l.isBlank = true := Bool.eq_false_iff.1 hblank
          have hdrop : unspaced (l :: ls) = l :: ls := List.dropWhile_cons_of_neg hnot
          have htexts : texts δ (l :: ls) ++ rest = c :: (cs ++ (texts δ ls ++ rest)) := by
            rw [texts_cons, hl, List.append_assoc]
            rfl
          rw [← hhead] at hnot
          rw [hdrop, htexts, List.takeWhile_cons_of_neg hnot, List.dropWhile_cons_of_neg hnot,
            List.takeWhile_cons_of_neg (hhead ▸ hnot)]
          exact ⟨rfl, rfl⟩

/-- The first lexeme that is no blank stands where the blanks end. -/
theorem stands_of_unspaced {ls more : List Lexeme} (h : Legible d δ behind ls rest)
    (hls : unspaced ls = l :: more) :
    l.Stands d δ ((texts δ (ls.takeWhile isBlank)).reverse ++ behind) (texts δ more ++ rest) := by
  have hsplit : ls.takeWhile isBlank ++ l :: more = ls := by
    rw [← hls]
    exact List.takeWhile_append_dropWhile
  rw [← hsplit, legible_append] at h
  exact h.2.1

/-- Only the delimiter begins like it. -/
theorem Stands.not_delimiter (hδ : δ.IsPlain d) (h : l.Stands d δ behind rest)
    (hl : l ≠ .delimiter) : ¬ δ.toList <+: l.text δ ++ rest := by
  cases h with
  | blank hc =>
      intro hprefix
      have hhead := (List.cons_prefix_cons.1 hprefix).1
      have hblank := hδ.blank
      rw [hhead, hc] at hblank
      cases hblank
  | comment h =>
      rintro ⟨more, hmore⟩
      refine hδ.comment more ?_
      rw [hmore]
      generalize (none : Option Delimiter) = sets at h
      cases h with
      | line => exact .inl (List.prefix_append ['-', '-'] _)
      | hash hd => exact .inr (.inr ⟨hd, List.prefix_append ['#'] _⟩)
      | block => exact .inr (.inl (List.prefix_append ['/', '*'] _))
  | delimiter => exact absurd rfl hl
  | quoted _ hδ => exact hδ
  | word _ _ _ hδ => exact hδ 0 (Nat.zero_le _)
  | mark _ _ hδ => exact hδ

def Apart (δ : Delimiter) (behind ahead : List Char) : Prop :=
  NoWordBefore behind ∨ ∀ x ∈ ahead.head?, Piece.isWordChar x = true → δ.toList <+: ahead

/-- After a word and blanks, a mark is no letter. -/
theorem isWordStart_of_mark {c : Char} {ls more : List Lexeme} (h : Legible d δ behind ls rest)
    (hls : unspaced ls = .mark c :: more) (hapart : Apart δ behind (texts δ ls ++ rest)) :
    Piece.isWordStart c = false := by
  induction ls generalizing behind with
  | nil => cases hls
  | cons l ls ih =>
      obtain ⟨hstands, hrest⟩ := h
      cases hblank : l.isBlank with
      | true =>
          have hdrop : unspaced (l :: ls) = unspaced ls := List.dropWhile_cons_of_pos hblank
          cases hstands with
          | @blank b _ hb =>
              refine ih hrest (hdrop ▸ hls) (.inl fun x hx => ?_)
              obtain rfl : b = x := Option.some.inj hx
              exact Piece.not_isWordChar_of_isBlank hb
          | comment | delimiter | quoted | word | mark => cases hblank
      | false =>
          have hdrop : unspaced (l :: ls) = l :: ls :=
            List.dropWhile_cons_of_neg (Bool.eq_false_iff.1 hblank)
          obtain ⟨rfl, rfl⟩ := List.cons.inj (hdrop.symm.trans hls)
          cases hstands with
          | mark _ _ hδ _ hword =>
              rw [Bool.eq_false_iff]
              intro hstart
              rcases hapart with hbehind | hahead
              · exact hword hstart hbehind
              · exact hδ (hahead c rfl (Piece.isWordChar_of_isWordStart hstart))

theorem Stands.headWord?_word {run : List Char} (hδ : δ.IsPlain d)
    (h : (Lexeme.word run).Stands d δ behind rest) :
    ∃ tail, Piece.headWord? (run ++ rest) = some (run ++ tail) ∧
      ∀ c ∈ tail.head?, Piece.isWordStart c = false := by
  cases h with
  | @word c cs _ hstart hbehind hrun _ hrest =>
      refine ⟨rest.takeWhile Piece.isWordChar, ?_, fun x hx => ?_⟩
      · have hall : ∀ x ∈ c :: cs, Piece.isWordChar x = true :=
          List.forall_mem_cons.2 ⟨Piece.isWordChar_of_isWordStart hstart, hrun⟩
        rw [List.cons_append, Piece.headWord?, if_pos hstart, ← List.cons_append,
          List.takeWhile_append_of_pos hall]
      · cases rest with
        | nil => cases hx
        | cons y rest =>
            rw [List.takeWhile_cons] at hx
            split at hx
            · next hy =>
                obtain rfl : y = x := Option.some.inj hx
                have hhead := (List.cons_prefix_cons.1 (hrest y rfl hy)).1
                exact hhead ▸ hδ.wordStart
            · cases hx

/-- A word before something else than a word or a delimiter that looks like one. -/
theorem Stands.headWord?_alone {run : List Char} (h : (Lexeme.word run).Stands d δ behind rest)
    (hrest : ∀ x ∈ rest.head?, Piece.isWordChar x = false) :
    Piece.headWord? (run ++ rest) = some run := by
  cases h with
  | @word c cs _ hstart hbehind hrun =>
      have hall : ∀ x ∈ c :: cs, Piece.isWordChar x = true :=
        List.forall_mem_cons.2 ⟨Piece.isWordChar_of_isWordStart hstart, hrun⟩
      have hstop : rest.takeWhile Piece.isWordChar = [] := by
        cases rest with
        | nil => rfl
        | cons x rest => exact List.takeWhile_cons_of_neg (Bool.eq_false_iff.1 (hrest x rfl))
      rw [List.cons_append, Piece.headWord?, if_pos hstart, ← List.cons_append,
        List.takeWhile_append_of_pos hall, hstop, List.append_nil]

theorem Stands.headWord?_none (hδ : δ.IsPlain d) (h : l.Stands d δ behind rest)
    (hword : ∀ run, l ≠ .word run) (hmark : ∀ c, l = .mark c → Piece.isWordStart c = false) :
    Piece.headWord? (l.text δ ++ rest) = none := by
  have hcons {c : Char} {cs : List Char} (hc : Piece.isWordStart c = false) :
      Piece.headWord? (c :: cs) = none := by
    rw [Piece.headWord?, hc]
    rfl
  cases h with
  | blank hc =>
      refine hcons (Bool.eq_false_iff.2 fun hstart => ?_)
      rw [Piece.isBlank_of_isWordStart hstart] at hc
      cases hc
  | comment h =>
      generalize (none : Option Delimiter) = sets at h
      cases h <;> exact hcons rfl
  | delimiter => exact hcons hδ.wordStart
  | quoted h =>
      cases h with
      | quote hq => cases hq <;> exact hcons rfl
      | dollar _ htag =>
          obtain ⟨name, rfl, -⟩ := htag
          exact hcons rfl
  | word => exact absurd rfl (hword _)
  | mark => exact hcons (hmark _ rfl)

/-- The word that stands first after a word and blanks. Where a delimiter follows it, more may seem
to belong to it. -/
theorem headWord?_after {run : List Char} {ls more : List Lexeme} (hδ : δ.IsPlain d)
    (h : Legible d δ behind (.word run :: ls) rest) (hls : unspaced ls = l :: more) :
    (∀ w, l = .word w → ∃ tail,
        Piece.headWord? ((texts δ ls ++ rest).dropWhile Text.isBlank) = some (w ++ tail) ∧
          ∀ c ∈ tail.head?, Piece.isWordStart c = false) ∧
      ((∀ w, l ≠ .word w) →
        Piece.headWord? ((texts δ ls ++ rest).dropWhile Text.isBlank) = none) := by
  obtain ⟨hstands, hrest⟩ := h
  have hdrop := (span_texts hδ hrest (by rw [hls]; exact List.cons_ne_nil _ _)).2
  have hl := stands_of_unspaced hrest hls
  rw [hdrop, hls, texts_cons, List.append_assoc]
  refine ⟨?_, fun hword => hl.headWord?_none hδ hword ?_⟩
  · rintro w rfl
    exact hl.headWord?_word hδ
  · rintro c rfl
    refine isWordStart_of_mark hrest hls (.inr ?_)
    cases hstands with
    | word _ _ _ _ hrest => exact hrest

end Lexeme

end SchemaDrift
