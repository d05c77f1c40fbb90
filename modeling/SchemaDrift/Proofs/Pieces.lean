import SchemaDrift.Proofs.Forms

namespace SchemaDrift

theorem EndsLine.dropWhile (s : List Char) : EndsLine (s.dropWhile (· != '\n')) := by
  induction s with
  | nil => exact .nil
  | cons c s ih =>
      by_cases hc : c = '\n'
      · subst hc
        exact .cons s
      · have hc' : (c != '\n') = true := bne_iff_ne.2 hc
        rwa [List.dropWhile_cons, if_pos hc']

theorem drop_length_takeWhile (p : Char → Bool) (s : List Char) :
    s.drop (s.takeWhile p).length = s.dropWhile p := by
  induction s with
  | nil => rfl
  | cons c s ih =>
      by_cases h : p c = true
      · rw [List.takeWhile_cons_of_pos h, List.dropWhile_cons_of_pos h]
        exact ih
      · rw [List.takeWhile_cons_of_neg h, List.dropWhile_cons_of_neg h]
        rfl

theorem not_mem_takeWhile_line (s : List Char) : '\n' ∉ s.takeWhile (· != '\n') := by
  intro h
  exact absurd (List.mem_takeWhile_imp h) (by decide)

theorem ne_nil_of_isTag {tag : List Char} (h : IsTag tag) : tag ≠ [] := by
  obtain ⟨name, rfl, -⟩ := h
  exact List.cons_ne_nil _ _

theorem Quote.unique {d : Dialect} {behind : List Char} {c close close' : Char}
    {backslash backslash' : Bool} {what what' : Unclosed}
    (h : Quote d behind c close backslash what) (h' : Quote d behind c close' backslash' what') :
    close = close' ∧ backslash = backslash' := by
  cases h <;> cases h' <;> exact ⟨rfl, rfl⟩

theorem Quote.close_ne {d : Dialect} {behind : List Char} {c close : Char} {backslash : Bool}
    {what : Unclosed} (h : Quote d behind c close backslash what) : close ≠ '\\' := by
  cases h <;> decide

theorem QuoteTail.of_head? {close : Char} {backslash : Bool} {body rest rest' : List Char}
    (h : QuoteTail close backslash body rest)
    (hrest : rest'.head? = some close → rest.head? = some close) :
    QuoteTail close backslash body rest' := by
  induction h with
  | close h => exact .close (fun hr => h (hrest hr))
  | doubled h ih => exact .doubled (ih hrest)
  | escaped hb h ih => exact .escaped hb (ih hrest)
  | plain hb hc h ih => exact .plain hb hc (ih hrest)

theorem Unterminated.ne_nil {d : Dialect} {δ : Delimiter} {behind s : List Char} {what : Unclosed}
    (h : Unterminated d δ behind s what) : s ≠ [] := by
  cases h with
  | comment => exact List.cons_ne_nil _ _
  | quote hδ hs =>
      cases hs with
      | quote => exact List.cons_ne_nil _ _
      | dollar hd hi => exact List.append_ne_nil_of_left_ne_nil (ne_nil_of_isTag hi) _

namespace Text

theorem quotedSize_of_quoteTail {close : Char} {backslash : Bool} {body rest : List Char}
    (hclose : close ≠ '\\') (h : QuoteTail close backslash body rest) :
    quotedSize close backslash (body ++ rest) = some body.length := by
  have hescape : (backslash && close == '\\') = false := by
    rw [beq_eq_false_iff_ne.2 hclose, Bool.and_false]
  induction h with
  | @close rest hrest =>
      cases rest with
      | nil => simp [quotedSize, hescape]
      | cons e rest =>
          have he : (e == close) = false :=
            beq_eq_false_iff_ne.2 (fun he => hrest (by rw [he]; rfl))
          simp [quotedSize, hescape, he]
  | doubled h ih => simp [quotedSize, hescape, ih]
  | escaped hb h ih =>
      subst hb
      simp [quotedSize, ih]
  | @plain c body rest hb hc h ih =>
      have hc' : (backslash && c == '\\') = false := by
        rw [Bool.and_eq_false_imp]
        exact fun h => beq_eq_false_iff_ne.2 (hb h)
      rw [List.cons_append, quotedSize.eq_def]
      simp [hc', hc, ih]

theorem quotedSize_eq_some_iff {close : Char} (hclose : close ≠ '\\') {backslash : Bool}
    {s : List Char} {n : Nat} :
    quotedSize close backslash s = some n ↔
      ∃ body rest, s = body ++ rest ∧ n = body.length ∧ QuoteTail close backslash body rest := by
  constructor
  · intro h
    fun_induction quotedSize close backslash s generalizing n with
    | case1 | case2 => cases h
    | case3 c hc e cs ih =>
        obtain ⟨m, hm, rfl⟩ := Option.map_eq_some_iff.1 h
        obtain ⟨body, rest, rfl, rfl, hbody⟩ := ih hm
        simp only [Bool.and_eq_true, beq_iff_eq] at hc
        obtain ⟨hb, rfl⟩ := hc
        exact ⟨'\\' :: e :: body, rest, rfl, rfl, .escaped hb hbody⟩
    | case4 c hc hq =>
        cases h
        rw [beq_iff_eq] at hq
        subst hq
        exact ⟨[c], [], rfl, rfl, .close nofun⟩
    | case5 c hc hq e cs he ih =>
        obtain ⟨m, hm, rfl⟩ := Option.map_eq_some_iff.1 h
        obtain ⟨body, rest, rfl, rfl, hbody⟩ := ih hm
        rw [beq_iff_eq] at hq he
        subst hq he
        exact ⟨e :: e :: body, rest, rfl, rfl, .doubled hbody⟩
    | case6 c hc hq e cs he =>
        cases h
        rw [beq_iff_eq] at hq he
        subst hq
        exact ⟨[c], e :: cs, rfl, rfl, .close (fun h => he (Option.some.inj h))⟩
    | case7 c cs hc hq ih =>
        obtain ⟨m, hm, rfl⟩ := Option.map_eq_some_iff.1 h
        obtain ⟨body, rest, rfl, rfl, hbody⟩ := ih hm
        rw [beq_iff_eq] at hq
        refine ⟨c :: body, rest, rfl, rfl, .plain ?_ hq hbody⟩
        rintro rfl rfl
        exact hc rfl
  · rintro ⟨body, rest, rfl, rfl, h⟩
    exact quotedSize_of_quoteTail hclose h

theorem indexOf?_eq_some_iff {q s : List Char} (hq : q ≠ []) {n : Nat} :
    indexOf? q s = some n ↔ ∃ body rest, s = body ++ (q ++ rest) ∧ n = body.length ∧
      ∀ k < body.length, ¬ q <+: s.drop k := by
  constructor
  · intro h
    fun_induction indexOf? q s generalizing n with
    | case1 => cases h
    | case2 c cs hs =>
        cases h
        obtain ⟨rest, hrest⟩ := List.isPrefixOf_iff_prefix.1 hs
        exact ⟨[], rest, hrest.symm, rfl, nofun⟩
    | case3 c cs hs ih =>
        obtain ⟨m, hm, rfl⟩ := Option.map_eq_some_iff.1 h
        obtain ⟨body, rest, hcs, rfl, hfirst⟩ := ih hm
        refine ⟨c :: body, rest, by rw [hcs]; rfl, rfl, ?_⟩
        intro k hk
        cases k with
        | zero => exact fun hq => hs (List.isPrefixOf_iff_prefix.2 hq)
        | succ k => exact hfirst k (Nat.lt_of_succ_lt_succ hk)
  · rintro ⟨body, rest, rfl, rfl, hfirst⟩
    induction body with
    | nil =>
        obtain ⟨a, q, rfl⟩ := List.exists_cons_of_ne_nil hq
        exact if_pos (List.isPrefixOf_iff_prefix.2 (List.prefix_append _ rest))
    | cons c body ih =>
        have hhead := hfirst 0 (Nat.succ_pos _)
        have htail := ih (fun k hk => hfirst (k + 1) (Nat.succ_lt_succ hk))
        rw [List.cons_append, indexOf?, if_neg, htail]
        · rfl
        · exact fun h => hhead (List.isPrefixOf_iff_prefix.1 h)

theorem dollarTagSize_eq_some_iff {cs : List Char} {n : Nat} :
    dollarTagSize ('$' :: cs) = some n ↔
      ∃ tag rest, '$' :: cs = tag ++ rest ∧ n = tag.length ∧ IsTag tag := by
  unfold dollarTagSize
  simp only [List.tail_cons, List.drop_succ_cons, drop_length_takeWhile]
  constructor
  · intro h
    split at h
    · cases h
    split at h
    · next hdigit hclose =>
        cases h
        obtain ⟨rest, hrest⟩ := List.head?_eq_some_iff.1 (beq_iff_eq.1 hclose)
        have hcs := List.takeWhile_append_dropWhile
          (p := fun c : Char => c.isAlphanum || c == '_') (l := cs)
        rw [hrest] at hcs
        refine ⟨'$' :: (cs.takeWhile (fun c => c.isAlphanum || c == '_') ++ ['$']), rest, ?_,
          by simp, _, rfl, ?_, ?_⟩
        · rw [List.cons_append, List.append_assoc, List.singleton_append, hcs]
        · intro c hc
          exact List.mem_takeWhile_imp (p := fun c : Char => c.isAlphanum || c == '_') hc
        · intro c hc
          cases cs with
          | nil => cases hc
          | cons a cs =>
              rw [List.takeWhile_cons] at hc
              split at hc
              · cases hc
                exact Bool.eq_false_iff.2 hdigit
              · cases hc
    · cases h
  · rintro ⟨tag, rest, hcs, rfl, name, rfl, hname, hdigit⟩
    obtain rfl : cs = name ++ '$' :: rest := by
      simpa using hcs
    have htake : (name ++ '$' :: rest).takeWhile (fun c => c.isAlphanum || c == '_') = name := by
      rw [List.takeWhile_append_of_pos hname, List.takeWhile_cons_of_neg (by decide),
        List.append_nil]
    have hdrop : (name ++ '$' :: rest).dropWhile (fun c => c.isAlphanum || c == '_') =
        '$' :: rest := by
      rw [List.dropWhile_append_of_pos hname, List.dropWhile_cons_of_neg (by decide)]
    rw [htake, hdrop, if_neg, if_pos]
    · simp
    · rfl
    · cases name with
      | nil => exact Bool.false_ne_true
      | cons a name => exact Bool.eq_false_iff.1 (hdigit a rfl)

end Text

/-- A text starts with one tag at most. -/
theorem IsTag.unique {tag tag' rest rest' : List Char} (h : IsTag tag) (h' : IsTag tag')
    (hs : tag ++ rest = tag' ++ rest') : tag = tag' ∧ rest = rest' := by
  obtain ⟨cs, hcs⟩ : ∃ cs, '$' :: cs = tag ++ rest := by
    obtain ⟨name, rfl, -⟩ := h
    exact ⟨_, rfl⟩
  have hsize := Text.dollarTagSize_eq_some_iff.2 ⟨tag, rest, hcs, rfl, h⟩
  rw [Text.dollarTagSize_eq_some_iff.2 ⟨tag', rest', hcs.trans hs, rfl, h'⟩] at hsize
  exact List.append_inj hs (Option.some.inj hsize).symm

namespace Piece

theorem headWord?_prefix {s w : List Char} (h : headWord? s = some w) : w <+: s := by
  cases s with
  | nil => cases h
  | cons c s =>
      simp only [headWord?, Option.ite_none_right_eq_some, Option.some.injEq] at h
      rw [← h.2]
      exact List.takeWhile_prefix _

theorem not_mem_headWord? {s w : List Char} (h : headWord? s = some w) : '\n' ∉ w := by
  cases s with
  | nil => cases h
  | cons c s =>
      simp only [headWord?, Option.ite_none_right_eq_some, Option.some.injEq] at h
      rw [← h.2]
      intro hmem
      exact absurd (List.mem_takeWhile_imp hmem) (by decide)

theorem commentSize_cons {depth : Nat} {c : Char} {cs : List Char}
    (hopen : c = '/' → cs.head? ≠ some '*') (hclose : c = '*' → cs.head? ≠ some '/') :
    commentSize depth (c :: cs) = (commentSize depth cs).map (· + 1) := by
  rw [commentSize]
  · rintro cs' rfl rfl
    exact hopen rfl rfl
  · rintro cs' rfl rfl
    exact hclose rfl rfl

theorem commentSize_of_commentTail {depth : Nat} {body : List Char} (h : CommentTail depth body)
    (rest : List Char) : commentSize depth (body ++ rest) = some body.length := by
  induction h with
  | close => rfl
  | @inner depth cs h ih =>
      have hdepth : ¬ depth + 2 ≤ 1 := by omega
      simp only [List.cons_append, commentSize, if_neg hdepth]
      rw [show depth + 2 - 1 = depth + 1 from rfl, ih]
      rfl
  | opener h ih =>
      simp only [List.cons_append, commentSize, ih]
      rfl
  | @plain depth c cs hopen hclose h ih =>
      cases cs with
      | nil => cases h
      | cons b cs =>
          rw [List.cons_append, commentSize_cons, ih]
          · rfl
          · exact hopen
          · exact hclose

theorem commentSize_eq_some_iff {depth n : Nat} {s : List Char} (hd : 1 ≤ depth) :
    commentSize depth s = some n ↔
      ∃ body rest, s = body ++ rest ∧ n = body.length ∧ CommentTail depth body := by
  constructor
  · intro h
    fun_induction commentSize depth s generalizing n with
    | case1 => cases h
    | case2 depth cs ih =>
        obtain ⟨m, hm, rfl⟩ := Option.map_eq_some_iff.1 h
        obtain ⟨body, rest, rfl, rfl, hbody⟩ := ih (Nat.le_add_left 1 depth) hm
        exact ⟨'/' :: '*' :: body, rest, rfl, rfl, .opener hbody⟩
    | case3 depth cs hle =>
        cases h
        obtain rfl : depth = 1 := Nat.le_antisymm hle hd
        exact ⟨['*', '/'], cs, rfl, rfl, .close⟩
    | case4 depth cs hgt ih =>
        obtain ⟨m, hm, rfl⟩ := Option.map_eq_some_iff.1 h
        obtain ⟨body, rest, rfl, rfl, hbody⟩ := ih (by omega) hm
        obtain ⟨k, rfl⟩ : ∃ k, depth = k + 2 := ⟨depth - 2, by omega⟩
        exact ⟨'*' :: '/' :: body, rest, rfl, rfl, .inner hbody⟩
    | case5 depth c cs hopen hclose ih =>
        obtain ⟨m, hm, rfl⟩ := Option.map_eq_some_iff.1 h
        obtain ⟨body, rest, rfl, rfl, hbody⟩ := ih hd hm
        refine ⟨c :: body, rest, rfl, rfl, .plain ?_ ?_ hbody⟩
        · intro hc hhead
          obtain ⟨body, rfl⟩ := List.head?_eq_some_iff.1 hhead
          exact hopen _ hc rfl
        · intro hc hhead
          obtain ⟨body, rfl⟩ := List.head?_eq_some_iff.1 hhead
          exact hclose _ hc rfl
  · rintro ⟨body, rest, rfl, rfl, h⟩
    exact commentSize_of_commentTail h rest

theorem wordTailSize_spec (δ : Delimiter) (s : List Char) :
    ∃ body rest, s = body ++ rest ∧ wordTailSize δ s = body.length ∧
      (∀ x ∈ body, isWordChar x = true) ∧
        ∀ x ∈ rest.head?, isWordChar x = true → δ.toList <+: rest := by
  induction s with
  | nil => exact ⟨[], [], rfl, rfl, nofun, nofun⟩
  | cons c s ih =>
      rw [wordTailSize]
      split
      · next hc =>
          rw [Bool.and_eq_true] at hc
          obtain ⟨body, rest, rfl, hn, hbody, hrest⟩ := ih
          exact ⟨c :: body, rest, rfl, by rw [hn]; rfl,
            List.forall_mem_cons.2 ⟨hc.1, hbody⟩, hrest⟩
      · next hc =>
          refine ⟨[], c :: s, rfl, rfl, nofun, ?_⟩
          intro x hx hword
          cases hx
          by_contra hδ
          refine hc ?_
          rw [hword, Bool.true_and, Bool.not_eq_true', Bool.eq_false_iff]
          exact fun h => hδ (List.isPrefixOf_iff_prefix.1 h)

theorem noWordBefore_iff {behind : List Char} :
    NoWordBefore behind ↔ (behind.head?.map isWordChar).getD false = false := by
  cases behind with
  | nil => exact ⟨fun _ => rfl, fun _ => nofun⟩
  | cons b behind =>
      constructor
      · intro h
        exact h b rfl
      · rintro h x hx
        cases hx
        exact h

theorem startsComment_cons_iff {d : Dialect} {c : Char} {cs : List Char} :
    StartsComment d (c :: cs) ↔ (c == '-' && cs.head? == some '-') = true ∨
      (c == '/' && cs.head? == some '*') = true ∨ (c == '#' && d.hashComments) = true := by
  have htwo (a b : Char) : [a, b] <+: c :: cs ↔ (c == a && cs.head? == some b) = true := by
    rw [Bool.and_eq_true, beq_iff_eq, beq_iff_eq, List.cons_prefix_cons]
    cases cs with
    | nil => simp
    | cons e cs => simp [eq_comm]
  have hone : d.hashComments = true ∧ ['#'] <+: c :: cs ↔ (c == '#' && d.hashComments) = true := by
    rw [Bool.and_eq_true, beq_iff_eq, and_comm, List.cons_prefix_cons, eq_comm (a := '#')]
    simp
  rw [StartsComment, htwo, htwo, hone]

theorem ofCode_of_quote {d : Dialect} {δ : Delimiter} {behind cs : List Char} {c close : Char}
    {backslash : Bool} {what : Unclosed} (hq : Quote d behind c close backslash what) :
    ofCode d δ behind c cs = closed what (Text.quotedSize close backslash cs) := by
  cases hq with
  | single | double | backtick => rfl
  | bracket hd => simp [ofCode, hd]

theorem ofCode_of_tag {d : Dialect} (hd : d.dollarQuotes = true) (δ : Delimiter)
    (behind : List Char) {cs tag rest : List Char} (hi : IsTag tag) (hs : '$' :: cs = tag ++ rest) :
    ofCode d δ behind '$' cs = closed .dollarQuote ((Text.indexOf? tag rest).map
      (fun body => tag.length + body + tag.length - 1)) := by
  have hsize := Text.dollarTagSize_eq_some_iff.2 ⟨tag, rest, hs, rfl, hi⟩
  rw [hs] at hsize
  simp [ofCode, hd, hs, hsize]

theorem ofCode_of_not_startsQuote {d : Dialect} {behind cs : List Char} {c : Char}
    (h : ∀ what, ¬ StartsQuote d behind (c :: cs) what) (δ : Delimiter) :
    ofCode d δ behind c cs =
      if isWordStart c && !((behind.head?.map isWordChar).getD false)
      then .ok (.word, wordTailSize δ cs + 1) else .ok (.mark, 1) := by
  have hne {a close : Char} {backslash : Bool} {what : Unclosed}
      (hq : Quote d behind a close backslash what) : ¬ (c == a) = true := by
    intro hc
    obtain rfl := beq_iff_eq.1 hc
    exact h _ (.quote hq)
  have hbracket : ¬ (c == '[' && d.bracketIdentifiers) = true := by
    intro hc
    obtain ⟨hc, hd⟩ := Bool.and_eq_true_iff.1 hc
    exact hne (.bracket hd) hc
  unfold ofCode
  rw [if_neg (hne .single), if_neg (hne .double), if_neg (hne .backtick), if_neg hbracket]
  split
  · next hdollar =>
      obtain ⟨hc, hd⟩ := Bool.and_eq_true_iff.1 hdollar
      obtain rfl := beq_iff_eq.1 hc
      cases htag : Text.dollarTagSize ('$' :: cs) with
      | none => rfl
      | some n =>
          obtain ⟨tag, rest, hs, -, hi⟩ := Text.dollarTagSize_eq_some_iff.1 htag
          rw [hs] at h
          exact absurd (.dollar hd hi) (h _)
  · rfl

theorem not_quoted_of_quotedSize {d : Dialect} {behind cs : List Char} {c close : Char}
    {backslash : Bool} {what : Unclosed} (hq : Quote d behind c close backslash what)
    (h : Text.quotedSize close backslash cs = none) :
    ∀ run rest, c :: cs = run ++ rest → ¬ Quoted d behind run rest := by
  intro run rest hs hrun
  cases hrun with
  | @quote _ _ _ _ body _ hq' hbody =>
      have hcs : cs = body ++ rest := (List.cons.inj hs).2
      obtain rfl := (List.cons.inj hs).1
      obtain ⟨rfl, rfl⟩ := hq.unique hq'
      rw [hcs, Text.quotedSize_of_quoteTail hq.close_ne hbody] at h
      cases h
  | dollar hd hi =>
      obtain ⟨name, rfl, -⟩ := hi
      obtain rfl := (List.cons.inj hs).1
      cases hq

theorem not_quoted_of_indexOf? {d : Dialect} {behind tag cs : List Char} (hi : IsTag tag)
    (h : Text.indexOf? tag cs = none) :
    ∀ run rest, tag ++ cs = run ++ rest → ¬ Quoted d behind run rest := by
  intro run rest hs hrun
  cases hrun with
  | quote hq =>
      obtain ⟨name, rfl, -⟩ := hi
      obtain rfl := (List.cons.inj hs).1
      cases hq
  | @dollar tag' body _ hd hi' hfirst =>
      rw [List.append_assoc, List.append_assoc] at hs
      obtain ⟨rfl, rfl⟩ := hi.unique hi' hs
      rw [(Text.indexOf?_eq_some_iff (ne_nil_of_isTag hi)).2 ⟨body, rest, rfl, rfl, hfirst⟩] at h
      cases h

theorem not_startsQuote_of_not_mem {d : Dialect} {behind cs : List Char} {c : Char}
    (hc : c ∉ ['\'', '"', '\x60', '[', '$']) (what : Unclosed) :
    ¬ StartsQuote d behind (c :: cs) what := by
  intro h
  generalize hs : c :: cs = s at h
  cases h with
  | quote hq =>
      obtain ⟨rfl, -⟩ := List.cons.inj hs
      cases hq <;> exact hc (by decide)
  | dollar hd htag =>
      obtain ⟨name, rfl, -⟩ := htag
      obtain ⟨rfl, -⟩ := List.cons.inj hs
      exact hc (by decide)

theorem not_startsQuote_of_isWordStart {d : Dialect} {behind cs : List Char} {c : Char}
    (hc : isWordStart c = true) (what : Unclosed) : ¬ StartsQuote d behind (c :: cs) what := by
  refine not_startsQuote_of_not_mem (fun hmem => ?_) what
  simp only [List.mem_cons, List.not_mem_nil, or_false] at hmem
  rcases hmem with rfl | rfl | rfl | rfl | rfl <;> exact absurd hc (by decide)

/-- Code begins with a token, or with a quote that is never closed. -/
theorem ofCode_cases (d : Dialect) (δ : Delimiter) (behind : List Char) (c : Char)
    (cs : List Char) :
    (∃ p run rest, ofCode d δ behind c cs = .ok (p, run.length) ∧ c :: cs = run ++ rest ∧
        (p = .quoted ∨ p = .word ∨ p = .mark) ∧ CodeToken d δ behind run rest) ∨
      ∃ what, ofCode d δ behind c cs = .error what ∧ StartsQuote d behind (c :: cs) what ∧
        ∀ run rest, c :: cs = run ++ rest → ¬ Quoted d behind run rest := by
  by_cases hquote : ∃ what, StartsQuote d behind (c :: cs) what
  · obtain ⟨what, hstarts⟩ := hquote
    generalize hs : c :: cs = s at hstarts
    cases id hstarts with
    | @quote _ close backslash _ _ hq =>
        obtain ⟨rfl, rfl⟩ := List.cons.inj hs
        rw [ofCode_of_quote hq]
        cases hsize : Text.quotedSize close backslash cs with
        | some m =>
            obtain ⟨body, rest, rfl, rfl, hbody⟩ := (Text.quotedSize_eq_some_iff hq.close_ne).1 hsize
            exact .inl ⟨_, c :: body, rest, rfl, rfl, .inl rfl, .quoted (.quote hq hbody)⟩
        | none => exact .inr ⟨what, rfl, hstarts, not_quoted_of_quotedSize hq hsize⟩
    | @dollar tag rest hd hi =>
        obtain rfl : c = '$' := by
          obtain ⟨name, rfl, -⟩ := hi
          exact (List.cons.inj hs).1
        rw [ofCode_of_tag hd δ behind hi hs]
        cases hm : Text.indexOf? tag rest with
        | some m =>
            obtain ⟨body, rest, rfl, rfl, hfirst⟩ :=
              (Text.indexOf?_eq_some_iff (ne_nil_of_isTag hi)).1 hm
            refine .inl ⟨_, tag ++ (body ++ tag), rest, ?_, by simp, .inl rfl,
              .quoted (.dollar hd hi hfirst)⟩
            have := List.length_pos_iff.2 (ne_nil_of_isTag hi)
            simp only [Option.map_some, closed, List.length_append]
            rw [Nat.sub_add_cancel (by omega), Nat.add_assoc]
        | none => exact .inr ⟨_, rfl, hstarts, not_quoted_of_indexOf? hi hm⟩
  have hquote : ∀ what, ¬ StartsQuote d behind (c :: cs) what := fun what h => hquote ⟨what, h⟩
  rw [ofCode_of_not_startsQuote hquote]
  by_cases hword : (isWordStart c && !((behind.head?.map isWordChar).getD false)) = true
  · rw [if_pos hword]
    obtain ⟨hstart, hbehind⟩ := Bool.and_eq_true_iff.1 hword
    obtain ⟨body, rest, rfl, hn, hbody, hrest⟩ := wordTailSize_spec δ cs
    refine .inl ⟨_, c :: body, rest, by rw [hn]; rfl, rfl, .inr (.inl rfl),
      .word hstart (noWordBefore_iff.2 ?_) hbody hrest⟩
    rwa [Bool.not_eq_true'] at hbehind
  · rw [if_neg hword]
    refine .inl ⟨_, [c], cs, rfl, rfl, .inr (.inr rfl), .mark hquote ?_⟩
    intro hstart hbehind
    rw [hstart, noWordBefore_iff.1 hbehind] at hword
    exact hword rfl

theorem eq_quoted_of_closed {what : Unclosed} {size : Option Nat} {p : Piece} {n : Nat}
    (h : closed what size = .ok (p, n)) : p = .quoted := by
  cases size with
  | none => cases h
  | some m =>
      cases h
      rfl

/-- The forms of code, told apart by the piece. -/
theorem ofCode_token {d : Dialect} {δ : Delimiter} {behind cs : List Char} {c : Char} {p : Piece}
    {n : Nat} (h : ofCode d δ behind c cs = .ok (p, n)) :
    ∃ run rest, c :: cs = run ++ rest ∧ n = run.length ∧
      (p = .quoted ∧ Quoted d behind run rest ∨
        p = .word ∧ NoWordBefore behind ∧ isWordStart c = true ∧
          (∀ x ∈ run, isWordChar x = true) ∧
          (∀ x ∈ rest.head?, isWordChar x = true → δ.toList <+: rest) ∨
        p = .mark ∧ run = [c] ∧ ∀ what, ¬ StartsQuote d behind (c :: cs) what) := by
  rcases ofCode_cases d δ behind c cs with ⟨p', run, rest, hp, hs, -, htoken⟩ | ⟨what, hp, -⟩
  · rw [h] at hp
    cases hp
    refine ⟨run, rest, hs, rfl, ?_⟩
    cases htoken with
    | quoted hq =>
        refine .inl ⟨?_, hq⟩
        cases hq with
        | quote hq =>
            obtain ⟨rfl, -⟩ := List.cons.inj hs
            rw [ofCode_of_quote hq] at h
            exact eq_quoted_of_closed h
        | dollar hd htag =>
            obtain rfl : c = '$' := by
              obtain ⟨name, rfl, -⟩ := htag
              exact (List.cons.inj hs).1
            rw [List.append_assoc, List.append_assoc] at hs
            rw [ofCode_of_tag hd δ behind htag hs] at h
            exact eq_quoted_of_closed h
    | @word _ w _ hstart hbehind hrun hrest =>
        obtain ⟨rfl, rfl⟩ := List.cons.inj hs
        have hword : (isWordStart c && !((behind.head?.map isWordChar).getD false)) = true := by
          rw [hstart, noWordBefore_iff.1 hbehind]
          rfl
        rw [ofCode_of_not_startsQuote (not_startsQuote_of_isWordStart hstart), if_pos hword] at h
        exact .inr (.inl ⟨(congrArg Prod.fst (Except.ok.inj h)).symm, hbehind, hstart,
          List.forall_mem_cons.2 ⟨isWordChar_of_isWordStart hstart, hrun⟩, hrest⟩)
    | mark hquote hword =>
        obtain ⟨rfl, rfl⟩ := List.cons.inj hs
        have hnot : ¬ (isWordStart c && !((behind.head?.map isWordChar).getD false)) = true := by
          rw [Bool.and_eq_true, Bool.not_eq_true', ← noWordBefore_iff]
          exact fun h => hword h.1 h.2
        rw [ofCode_of_not_startsQuote hquote, if_neg hnot] at h
        exact .inr (.inr ⟨(congrArg Prod.fst (Except.ok.inj h)).symm, rfl, hquote⟩)
  · rw [h] at hp
    cases hp

/-- Code is not the start of a comment. -/
theorem ofCode_of_next {d : Dialect} {δ : Delimiter} {started : Bool} {behind cs : List Char}
    {c : Char} {p : Piece} {n : Nat} (h : next d δ started behind c cs = .ok (p, n))
    (hp : p = .quoted ∨ p = .word ∨ p = .mark) :
    ofCode d δ behind c cs = .ok (p, n) ∧ ¬ StartsComment d (c :: cs) := by
  unfold next at h
  split at h
  · cases h
    rcases hp with hp | hp | hp <;> cases hp
  next hdashes =>
  split at h
  · cases h
    rcases hp with hp | hp | hp <;> cases hp
  next hhash =>
  split at h
  · split at h
    · cases h
      rcases hp with hp | hp | hp <;> cases hp
    · cases h
  next hblock =>
  split at h
  · cases h
    rcases hp with hp | hp | hp <;> cases hp
  split at h
  · cases h
    rcases hp with hp | hp | hp <;> cases hp
  split at h
  · cases h
    rcases hp with hp | hp | hp <;> cases hp
  refine ⟨h, ?_⟩
  rw [startsComment_cons_iff]
  rintro (h | h | h)
  · exact hdashes h
  · exact hblock h
  · exact hhash h

theorem directive?_spec {d : Dialect} {s : List Char} {sets : Option Delimiter} {n : Nat}
    (h : directive? d s = some (sets, n)) :
    ∃ run rest, s = run ++ rest ∧ n = run.length ∧ Directive d run rest sets := by
  unfold directive? at h
  split at h
  · next hd =>
      cases hw : headWord? s with
      | none =>
          rw [hw] at h
          cases h
      | some w =>
          simp only [hw] at h
          split at h
          · next hword =>
              cases h
              obtain ⟨rest, hrest⟩ := headWord?_prefix hw
              refine ⟨w ++ rest.takeWhile (· != '\n'), rest.dropWhile (· != '\n'), ?_, ?_, ?_⟩
              · rw [List.append_assoc, List.takeWhile_append_dropWhile, hrest]
              · rw [← hrest, List.drop_left, List.length_append]
              · rw [← hrest, List.drop_left]
                refine ⟨hd, hword, ?_, .dropWhile rest⟩
                rw [List.mem_append, not_or]
                exact ⟨not_mem_headWord? hw, not_mem_takeWhile_line rest⟩
          · cases h
  · cases h

/-- A text begins with a piece, or with a comment or a quote that is never closed. -/
theorem next_cases (d : Dialect) (δ : Delimiter) (started : Bool) (behind : List Char) (c : Char)
    (cs : List Char) :
    (∃ p run rest, next d δ started behind c cs = .ok (p, run.length) ∧ c :: cs = run ++ rest ∧
        Form d δ started behind run rest p) ∨
      ∃ what, next d δ started behind c cs = .error what ∧
        Unterminated d δ behind (c :: cs) what := by
  unfold next
  by_cases hdashes : (c == '-' && cs.head? == some '-') = true
  · rw [if_pos hdashes]
    rw [Bool.and_eq_true, beq_iff_eq, beq_iff_eq] at hdashes
    obtain ⟨rfl, hhead⟩ := hdashes
    obtain ⟨cs, rfl⟩ := List.head?_eq_some_iff.1 hhead
    exact .inl ⟨_, '-' :: '-' :: cs.takeWhile (· != '\n'), cs.dropWhile (· != '\n'), rfl, by simp,
      .line (not_mem_takeWhile_line cs) (.dropWhile cs)⟩
  rw [if_neg hdashes]
  by_cases hhash : (c == '#' && d.hashComments) = true
  · rw [if_pos hhash]
    rw [Bool.and_eq_true, beq_iff_eq] at hhash
    obtain ⟨rfl, hd⟩ := hhash
    exact .inl ⟨_, '#' :: cs.takeWhile (· != '\n'), cs.dropWhile (· != '\n'), rfl, by simp,
      .hash hd (not_mem_takeWhile_line cs) (.dropWhile cs)⟩
  rw [if_neg hhash]
  by_cases hblock : (c == '/' && cs.head? == some '*') = true
  · rw [if_pos hblock]
    rw [Bool.and_eq_true, beq_iff_eq, beq_iff_eq] at hblock
    obtain ⟨rfl, hhead⟩ := hblock
    obtain ⟨cs, rfl⟩ := List.head?_eq_some_iff.1 hhead
    rw [List.tail_cons]
    cases hm : commentSize 1 cs with
    | none =>
        refine .inr ⟨_, rfl, .comment ?_⟩
        rintro body rest rfl hbody
        rw [commentSize_of_commentTail hbody] at hm
        cases hm
    | some m =>
        obtain ⟨body, rest, rfl, rfl, hbody⟩ := (commentSize_eq_some_iff (Nat.le_refl 1)).1 hm
        exact .inl ⟨_, '/' :: '*' :: body, rest, rfl, rfl, .block hbody⟩
  rw [if_neg hblock]
  by_cases hblank : Text.isBlank c = true
  · rw [if_pos hblank]
    exact .inl ⟨_, [c], cs, rfl, rfl, c, rfl, hblank⟩
  rw [if_neg hblank]
  have hcomment : ¬ StartsComment d (c :: cs) := by
    rw [startsComment_cons_iff]
    rintro (h | h | h)
    · exact hdashes h
    · exact hblock h
    · exact hhash h
  cases hsets : (if started = true then none else directive? d (c :: cs)) with
  | some r =>
      obtain ⟨sets, n⟩ := r
      split at hsets
      · cases hsets
      · next hstarted =>
          obtain ⟨run, rest, hs, hn, hdir⟩ := directive?_spec hsets
          exact .inl ⟨.directive sets, run, rest, by rw [← hn], hs,
            Bool.eq_false_iff.2 hstarted, hdir⟩
  | none =>
      dsimp only
      by_cases hδ : Text.startsWith (c :: cs) δ.toList = true
      · rw [if_pos hδ]
        obtain ⟨rest, hrest⟩ := List.isPrefixOf_iff_prefix.1 hδ
        exact .inl ⟨_, δ.toList, rest, rfl, hrest.symm, rfl, by rwa [hrest]⟩
      · rw [if_neg hδ]
        have hδ : ¬ δ.toList <+: c :: cs := fun h => hδ (List.isPrefixOf_iff_prefix.2 h)
        rcases ofCode_cases d δ behind c cs with
          ⟨p, run, rest, hp, hs, hkind, htoken⟩ | ⟨what, hp, hs, hopen⟩
        · refine .inl ⟨p, run, rest, hp, hs, ?_⟩
          rw [hs] at hcomment hδ
          have hform : Code d δ behind run rest := .token hcomment hδ htoken
          rcases hkind with rfl | rfl | rfl <;> exact hform
        · exact .inr ⟨what, hp, .quote hδ hs hopen⟩

theorem next_spec {d : Dialect} {δ : Delimiter} {started : Bool} {behind cs : List Char} {c : Char}
    {p : Piece} {n : Nat} (h : next d δ started behind c cs = .ok (p, n)) :
    ∃ run rest, c :: cs = run ++ rest ∧ n = run.length ∧ Form d δ started behind run rest p := by
  rcases next_cases d δ started behind c cs with ⟨p', run, rest, hp, hs, hform⟩ | ⟨what, hp, -⟩
  · rw [h] at hp
    cases hp
    exact ⟨run, rest, hs, rfl, hform⟩
  · rw [h] at hp
    cases hp

theorem next_error {d : Dialect} {δ : Delimiter} {started : Bool} {behind cs : List Char}
    {c : Char} {what : Unclosed} (h : next d δ started behind c cs = .error what) :
    Unterminated d δ behind (c :: cs) what := by
  rcases next_cases d δ started behind c cs with ⟨p, run, rest, hp, -⟩ | ⟨what', hp, hopen⟩
  · rw [h] at hp
    cases hp
  · rw [h] at hp
    cases hp
    exact hopen

theorem next_blank {c : Char} (h : Text.isBlank c = true) (d : Dialect) (δ : Delimiter)
    (started : Bool) (behind cs : List Char) :
    next d δ started behind c cs = .ok (.blank, 1) := by
  simp only [Text.isBlank, Bool.or_eq_true, beq_iff_eq] at h
  rcases h with (((rfl | rfl) | rfl) | rfl) | rfl <;> rfl

theorem next_semicolon (d : Dialect) (started : Bool) (behind cs : List Char) :
    next d .semicolon started behind ';' cs = .ok (.delimiter, 1) := by
  cases started
  · cases d <;> rfl
  · rfl

theorem next_le {d : Dialect} {δ : Delimiter} {started : Bool} {behind cs : List Char} {c : Char}
    {p : Piece} {n : Nat} (h : next d δ started behind c cs = .ok (p, n)) :
    n ≤ (c :: cs).length := by
  obtain ⟨run, rest, hs, rfl, -⟩ := next_spec h
  rw [hs, List.length_append]
  exact Nat.le_add_right _ _

end Piece

end SchemaDrift
