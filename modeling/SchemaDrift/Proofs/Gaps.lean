import Mathlib.Data.List.Forall2
import SchemaDrift.Proofs.Extents
import SchemaDrift.Proofs.Juxtaposition

namespace SchemaDrift.Token

variable {d : Dialect} {last : Option Char} {b : Char} {s t gap : List Char} {ts : List Token}

def regap (gap : List Char) : List Token → List Token
  | [] => []
  | t :: ts => { t with gap := gap ++ t.gap } :: ts

theorem regap_nil (ts : List Token) : regap [] ts = ts := by
  cases ts <;> rfl

theorem regap_regap (gap gap' : List Char) (ts : List Token) :
    regap gap (regap gap' ts) = regap (gap ++ gap') ts := by
  cases ts with
  | nil => rfl
  | cons t ts => simp only [regap, List.append_assoc]

theorem regap_ne_nil (h : ts ≠ []) (gap : List Char) : regap gap ts ≠ [] := by
  cases ts with
  | nil => exact absurd rfl h
  | cons t ts => exact List.cons_ne_nil _ _

theorem map_ungapped_regap (gap : List Char) (ts : List Token) :
    (regap gap ts).map ungapped = ts.map ungapped := by
  cases ts <;> rfl

theorem map_folded_regap (gap : List Char) (ts : List Token) :
    (regap gap ts).map folded = ts.map folded :=
  map_folded_of_ungapped (map_ungapped_regap gap ts)

theorem span_regap (gap : List Char) (ts : List Token) : span (regap gap ts) = span ts := by
  cases ts <;> rfl

theorem take_regap (gap : List Char) (ts : List Token) (n : Nat) :
    (regap gap ts).take n = regap gap (ts.take n) := by
  cases ts <;> cases n <;> rfl

theorem depthAfter_map {f : Token → Token} (hf : ∀ t s, (f t).isSymbol s = t.isSymbol s) (n : Int)
    (ts : List Token) : depthAfter n (ts.map f) = depthAfter n ts := by
  induction ts generalizing n with
  | nil => rfl
  | cons t ts ih => simp only [List.map_cons, depthAfter, hf, ih]

theorem IsItem.regap (h : IsItem ts) (gap : List Char) : IsItem (regap gap ts) where
  parens := by
    rw [← openAfter_map isSymbol_ungapped, map_ungapped_regap, openAfter_map isSymbol_ungapped,
      h.parens]
  commas := by
    rw [← depthAfter_map isSymbol_ungapped, map_ungapped_regap, depthAfter_map isSymbol_ungapped,
      h.commas]

theorem lexFrom_eq_regap (d : Dialect) (last : Option Char) (gap s : List Char) :
    (lexFrom d last gap s).1 = regap gap.reverse (lexFrom d last [] s).1 := by
  induction hn : s.length using Nat.strong_induction_on generalizing last gap s with
  | _ n ih =>
      subst hn
      cases s with
      | nil =>
          rw [lexFrom, lexFrom]
          rfl
      | cons c cs =>
          rw [lexFrom, lexFrom.eq_def d last [] (c :: cs)]
          dsimp only
          have hless : (cs.drop (head d last c cs).2).length < (c :: cs).length := by
            rw [List.length_drop, List.length_cons]
            omega
          cases (head d last c cs).1 with
          | none =>
              dsimp only
              rw [ih _ hless _ _ _ rfl, ih _ hless _ (_ ++ []) _ rfl, regap_regap,
                List.reverse_append, List.append_nil]
          | some kind =>
              change _ :: _ = regap gap.reverse (_ :: _)
              rw [regap, List.reverse_nil, List.append_nil]

theorem lexFrom_eq_regap_lex (hlast : last ∉ [some 'E', some 'e']) (gap s : List Char) :
    (lexFrom d last gap s).1 = regap gap.reverse (lex d s) := by
  rw [lexFrom_congr_last hlast, lexFrom_eq_regap]
  rfl

theorem closedFrom_congr_last (hlast : last ∉ [some 'E', some 'e']) (s : List Char) :
    closedFrom d last s = closedFrom d none s := by
  cases s with
  | nil => rw [closedFrom, closedFrom]
  | cons c cs =>
      have hnone : (none : Option Char) ∉ [some 'E', some 'e'] := by decide
      rw [closedFrom, closedFrom, head_congr_last hlast hnone]

/-- A closed text keeps its tokens before a seam, and leaves what it skips at its end to the next
token. -/
theorem fst_lexFrom_append (h : closedFrom d last s = true) (hb : b ∈ seams) (hcolon : b ≠ ':')
    (gap t : List Char) : (lexFrom d last gap (s ++ b :: t)).1 = (lexFrom d last gap s).1 ++
      (lexFrom d none (lexFrom d last gap s).2.reverse (b :: t)).1 := by
  fun_induction closedFrom d last s generalizing gap with
  | case1 last =>
      have hhead : head d last b t = head d none b t :=
        head_congr_of_ne none (ne_of_mem_seams hb (by decide)).symm t
      rw [lexFrom.eq_def d last gap [], List.nil_append, List.nil_append, List.reverse_reverse,
        lexFrom, lexFrom.eq_def d none, hhead]
  | case2 last c cs n ih =>
      rw [Bool.and_eq_true, decide_eq_true_iff] at h
      obtain ⟨hle, hrest⟩ := h
      have hhead := head_of_le hb (.cons t) (fun h => absurd h hcolon) hle
      have hown : head d last c cs = head d last c (cs ++ [' ']) := by
        have hown := head_of_le (by decide) .nil (fun hcolon : ' ' = ':' => by cases hcolon) hle
        rwa [List.append_nil] at hown
      have hih (gap : List Char) := ih hrest gap
      rw [List.cons_append, lexFrom, lexFrom, hhead, hown]
      simp only [n] at hle hih
      simp only [List.take_append_of_le_length hle, List.drop_append_of_le_length hle]
      cases hkind : (head d last c (cs ++ [' '])).1 with
      | none => exact hih _
      | some kind => exact congrArg (_ :: ·) (hih [])

theorem lexFrom_append_of_closed (h : closedFrom d last s = true) (hb : b ∈ seams)
    (hcolon : b ≠ ':') (gap t : List Char) : ∃ gap', (lexFrom d last gap (s ++ b :: t)).1 =
      (lexFrom d last gap s).1 ++ (lexFrom d none gap' (b :: t)).1 :=
  ⟨_, fst_lexFrom_append h hb hcolon gap t⟩

theorem lex_append_of_closed (h : closedFrom d none s = true)
    (ht : ∀ c ∈ t.head?, c ∈ seams ∧ c ≠ ':') :
    ∃ gap, lex d (s ++ t) = lex d s ++ regap gap (lex d t) := by
  cases t with
  | nil =>
      have hnil : lex d [] = [] := by rw [lex, lexFrom]
      refine ⟨[], ?_⟩
      rw [hnil, regap, List.append_nil, List.append_nil]
  | cons c t =>
      obtain ⟨hc, hcolon⟩ := ht c rfl
      obtain ⟨gap, hrest⟩ := lexFrom_append_of_closed h hc hcolon [] t
      refine ⟨gap.reverse, ?_⟩
      rwa [lexFrom_eq_regap_lex (show none ∉ [some 'E', some 'e'] by decide) gap] at hrest

/-- A closed text with another after a seam. -/
theorem closedFrom_append (h : closedFrom d last s = true) (hb : b ∈ seams) (hcolon : b ≠ ':')
    (ht : closedFrom d none (b :: t) = true) : closedFrom d last (s ++ b :: t) = true := by
  fun_induction closedFrom d last s with
  | case1 last =>
      have hhead : head d last b (t ++ [' ']) = head d none b (t ++ [' ']) :=
        head_congr_of_ne none (ne_of_mem_seams hb (by decide)).symm _
      rw [closedFrom] at ht
      rwa [List.nil_append, closedFrom, hhead]
  | case2 last c cs n ih =>
      rw [Bool.and_eq_true, decide_eq_true_iff] at h
      obtain ⟨hle, hrest⟩ := h
      have hhead := head_of_le hb (.cons (t ++ [' '])) (fun h => absurd h hcolon) hle
      rw [List.cons_append, closedFrom, List.append_assoc, List.cons_append, hhead,
        Bool.and_eq_true, decide_eq_true_iff]
      simp only [n] at hle ih hrest
      refine ⟨by rw [List.length_append]; omega, ?_⟩
      rw [List.take_append_of_le_length hle, List.drop_append_of_le_length hle]
      exact ih hrest

theorem lex_blank (s : List Char) : lex d (' ' :: s) = regap [' '] (lex d s) := by
  rw [lex, lexFrom_blank, lexFrom_eq_regap_lex (by decide)]
  rfl

theorem closedFrom_blank (last : Option Char) (s : List Char) :
    closedFrom d last (' ' :: s) = closedFrom d none s := by
  have hhead : head d last ' ' (s ++ [' ']) = (none, 0) := rfl
  have hblank : some ' ' ∉ [some 'E', some 'e'] := by decide
  rw [closedFrom, hhead]
  exact closedFrom_congr_last hblank s

theorem regap_append (gap : List Char) (ts us : List Token) :
    ∃ gap', regap gap (ts ++ us) = regap gap ts ++ regap gap' us := by
  cases ts with
  | nil => exact ⟨gap, rfl⟩
  | cons t ts => exact ⟨[], by rw [regap_nil]; rfl⟩

/-- Texts one after the other, with blanks between them. -/
theorem closedFrom_intercalate {ss : List (List Char)}
    (h : ∀ s ∈ ss, closedFrom d none s = true) :
    closedFrom d none ([' '].intercalate ss) = true := by
  induction ss with
  | nil => exact closedFrom.eq_def ..
  | cons s ss ih =>
      obtain ⟨hs, hss⟩ := List.forall_mem_cons.1 h
      cases ss with
      | nil => rwa [List.intercalate_singleton]
      | cons u ss =>
          rw [List.intercalate_cons_cons, List.append_assoc]
          refine closedFrom_append (b := ' ') hs (by decide) (by decide) ?_
          exact (closedFrom_blank none _).trans (ih hss)

/-- The tokens of texts one after the other are those of each text, but for the gaps. -/
theorem regap_lex_intercalate {ss : List (List Char)} (h : ∀ s ∈ ss, closedFrom d none s = true)
    (gap : List Char) : ∃ tss, regap gap (lex d ([' '].intercalate ss)) = tss.flatten ∧
      List.Forall₂ (fun s ts => ∃ gap, ts = regap gap (lex d s)) ss tss := by
  induction ss generalizing gap with
  | nil => exact ⟨[], by rw [List.intercalate_nil, lex, lexFrom]; rfl, .nil⟩
  | cons s ss ih =>
      obtain ⟨hs, hss⟩ := List.forall_mem_cons.1 h
      cases ss with
      | nil =>
          refine ⟨[regap gap (lex d s)], ?_, .cons ⟨gap, rfl⟩ .nil⟩
          rw [List.intercalate_singleton, List.flatten_singleton]
      | cons u ss =>
          obtain ⟨before, hlex⟩ := lex_append_of_closed hs
            (t := ' ' :: [' '].intercalate (u :: ss)) (by simp [seams])
          obtain ⟨gap', happend⟩ := regap_append gap (lex d s)
            (regap before (lex d (' ' :: [' '].intercalate (u :: ss))))
          obtain ⟨tss, hflatten, htss⟩ := ih hss (gap' ++ before ++ [' '])
          refine ⟨regap gap (lex d s) :: tss, ?_, .cons ⟨gap, rfl⟩ htss⟩
          rw [lex_blank, regap_regap, regap_regap, ← List.append_assoc] at happend
          rw [List.intercalate_cons_cons, List.append_assoc, List.singleton_append, hlex, lex_blank,
            regap_regap, happend, hflatten, List.flatten_cons]

theorem closedFrom_of_isWordText {s : List Char} (h : isWordText s = true) :
    closedFrom d none s = true := by
  cases s with
  | nil => cases h
  | cons c cs =>
      have hhead : head d none c (cs ++ [' ']) = (some .word, cs.length) :=
        head_of_isWordText h (by decide) (.cons [])
      rw [closedFrom, hhead, List.drop_length, closedFrom, decide_eq_true (le_refl cs.length)]
      rfl

theorem lex_of_isWordText {s : String} (h : isWordText s.toList = true) :
    lex d s.toList = [bareWord s] := by
  rw [bareWord]
  generalize s.toList = s at h ⊢
  cases s with
  | nil => cases h
  | cons c cs =>
      have hhead : head d none c (cs ++ []) = (some .word, cs.length) :=
        head_of_isWordText h (b := ' ') (by decide) .nil
      rw [List.append_nil] at hhead
      rw [lex, lexFrom, hhead]
      dsimp only
      rw [List.take_length, List.drop_length, lexFrom]
      rfl

theorem lexFrom_sign {c : Char} (hc : c ∈ ['(', ')', ',']) (last : Option Char)
    (gap cs : List Char) : (lexFrom d last gap (c :: cs)).1 =
      ⟨.symbol, gap.reverse, [c]⟩ :: (lexFrom d (some c) [] cs).1 := by
  rw [lexFrom, head_sign hc]
  rfl

/-- Anything may follow a closing parenthesis. -/
theorem lex_append_closing (h : closedFrom d none s = true) (t : List Char) :
    lex d (s ++ ')' :: t) = lex d (s ++ [')']) ++ lex d t := by
  have hsign (t : List Char) : lex d (s ++ ')' :: t) = lex d s ++
      ⟨.symbol, (lexFrom d none [] s).2, [')']⟩ :: lex d t := by
    rw [lex, fst_lexFrom_append h (by decide) (by decide), lexFrom_sign (by decide),
      lexFrom_eq_regap_lex (show some ')' ∉ [some 'E', some 'e'] by decide), List.reverse_nil,
      regap_nil, List.reverse_reverse]
    rfl
  have hnil : lex d [] = [] := by rw [lex, lexFrom]
  rw [hsign, hsign, hnil, List.append_assoc]
  rfl

@[mk_iff]
structure IsElement (d : Dialect) (s : List Char) : Prop where
  closed : closedFrom d none s = true
  item : IsItem (lex d s)
  ne_nil : lex d s ≠ []

instance (s : List Char) : Decidable (IsElement d s) := decidable_of_iff' _ (isElement_iff d s)

def elementTokens (d : Dialect) : List (List Char) → List (List Token)
  | [] => []
  | s :: ss => lex d s :: ss.map (fun s => regap [' '] (lex d s))

/-- The tokens of a list after the parenthesis that opens it. -/
theorem exists_body {ss : List (List Char)} (h : ∀ s ∈ ss, IsElement d s) (t : List Char) :
    ∃ body gap, (lexFrom d (some '(') [] (", ".toList.intercalate ss ++ ')' :: t)).1 =
        body ++ ⟨.symbol, gap, [')']⟩ :: (lexFrom d (some ')') [] t).1 ∧
      splitCommas body = elementTokens d ss ∧ openAfter 0 body = some 0 := by
  have hlist {last : Option Char} (hlast : last ∉ [some 'E', some 'e']) (gap : List Char)
      {s : List Char} {ss : List (List Char)} (h : ∀ u ∈ s :: ss, IsElement d u) :
      ∃ body gap', (lexFrom d last gap (", ".toList.intercalate (s :: ss) ++ ')' :: t)).1 =
          body ++ ⟨.symbol, gap', [')']⟩ :: (lexFrom d (some ')') [] t).1 ∧
        splitCommas body =
          regap gap.reverse (lex d s) :: ss.map (fun s => regap [' '] (lex d s)) ∧
        openAfter 0 body = some 0 := by
    induction ss generalizing s last gap with
    | nil =>
        have hs := h s List.mem_cons_self
        have hclosed := (closedFrom_congr_last hlast s).trans hs.closed
        obtain ⟨gap', hrest⟩ := lexFrom_append_of_closed (b := ')') hclosed
          (by decide) (by decide) gap t
        rw [lexFrom_sign (by decide), lexFrom_eq_regap_lex hlast gap s] at hrest
        have hitem := hs.item.regap gap.reverse
        refine ⟨_, gap'.reverse, ?_, splitCommas_of_isItem hitem (regap_ne_nil hs.ne_nil _),
          hitem.parens⟩
        rw [List.intercalate_singleton]
        exact hrest
    | cons u ss ih =>
        have hs := h s List.mem_cons_self
        have hclosed := (closedFrom_congr_last hlast s).trans hs.closed
        have hblank : some ' ' ∉ [some 'E', some 'e'] := by decide
        obtain ⟨body, gap', hbody, hsplit, hopen⟩ := ih hblank [' ']
          (fun v hv => h v (List.mem_cons_of_mem s hv))
        obtain ⟨before, hrest⟩ := lexFrom_append_of_closed (b := ',') hclosed
          (by decide) (by decide) gap
          (' ' :: (", ".toList.intercalate (u :: ss) ++ ')' :: t))
        rw [lexFrom_sign (by decide), lexFrom_blank, hbody,
          lexFrom_eq_regap_lex hlast gap s] at hrest
        have hitem := hs.item.regap gap.reverse
        refine ⟨regap gap.reverse (lex d s) ++ ⟨.symbol, before.reverse, [',']⟩ :: body, gap',
          ?_, ?_, ?_⟩
        · rw [List.intercalate_cons_cons, List.append_assoc, List.append_assoc, List.append_assoc,
            List.cons_append]
          exact hrest
        · rw [splitCommas_append hitem rfl, hsplit, List.map_cons]
          rfl
        · have hcomma : openAfter 0 (⟨.symbol, before.reverse, [',']⟩ :: body) = some 0 := by
            rw [openAfter_of_text ⟨by simp, by simp⟩, hopen]
          rw [openAfter_append, hitem.parens, Option.bind_some, hcomma]
  cases ss with
  | nil =>
      refine ⟨[], [], ?_, rfl, rfl⟩
      exact lexFrom_sign (by decide) _ _ _
  | cons s ss =>
      obtain ⟨body, gap, hbody, hsplit, hopen⟩ := hlist
        (show some '(' ∉ [some 'E', some 'e'] by decide) [] h
      refine ⟨body, gap, hbody, ?_, hopen⟩
      rw [hsplit, List.reverse_nil, regap_nil]
      rfl

/-- An element that comes last. -/
theorem elementTokens_concat (d : Dialect) (ss : List (List Char)) (s : List Char) :
    ∃ gap, elementTokens d (ss ++ [s]) = elementTokens d ss ++ [regap gap (lex d s)] := by
  cases ss with
  | nil => exact ⟨[], congrArg (fun ts => [ts]) (regap_nil _).symm⟩
  | cons u ss =>
      refine ⟨[' '], ?_⟩
      rw [List.cons_append, elementTokens, List.map_append]
      rfl

end SchemaDrift.Token
