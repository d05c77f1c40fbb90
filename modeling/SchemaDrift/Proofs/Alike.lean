import Mathlib.Data.List.Forall2
import SchemaDrift.Proofs.Folded
import SchemaDrift.Reader

namespace SchemaDrift

namespace Token

theorem groupFrom_prefix (depth : Nat) (ts : List Token) : (groupFrom depth ts).1 <+: ts := by
  induction ts generalizing depth with
  | nil => exact List.nil_prefix
  | cons t ts ih =>
      simp only [groupFrom]
      split
      · split
        · exact List.nil_prefix
        · exact (List.prefix_cons_inj t).2 (ih _)
      · exact (List.prefix_cons_inj t).2 (ih _)

theorem groupFrom_suffix (depth : Nat) (ts : List Token) : (groupFrom depth ts).2 <:+ ts := by
  induction ts generalizing depth with
  | nil => exact List.nil_suffix
  | cons t ts ih =>
      simp only [groupFrom]
      split
      · split
        · exact List.suffix_cons t ts
        · exact (ih _).trans (List.suffix_cons t ts)
      · exact (ih _).trans (List.suffix_cons t ts)

theorem splitCommas_infix {ts part : List Token} (h : part ∈ splitCommas ts) : part <:+: ts := by
  have hfrom {depth : Int} {before us : List Token}
      (h : part ∈ splitCommasFrom depth before us) : part <:+: before.reverse ++ us := by
    induction us generalizing depth before with
    | nil =>
        simp only [splitCommasFrom] at h
        split at h
        · cases h
        · obtain rfl := List.mem_singleton.1 h
          exact (List.prefix_append _ _).isInfix
    | cons u us ih =>
        simp only [splitCommasFrom] at h
        split at h
        · rcases List.mem_cons.1 h with rfl | h
          · exact (List.prefix_append _ _).isInfix
          · exact (ih h).trans ⟨before.reverse ++ [u], [], by simp⟩
        · simpa using ih h
  exact hfrom h

/-- The first character of a token decides what it is. -/
theorem Lexes.of_mem {d : Dialect} {last : Option Char} {gap s trailing : List Char}
    {ts : List Token} (h : Lexes d last gap s ts trailing) {t : Token} (ht : t ∈ ts) :
    ∃ last c body rest, t.text = c :: body ∧
      head d last c (body ++ rest) = (some t.kind, body.length) := by
  induction h with
  | nil => cases ht
  | skip h u ih => exact ih ht
  | token h u ih =>
      rcases List.mem_cons.1 ht with rfl | ht
      · exact ⟨_, _, _, _, rfl, h⟩
      · exact ih ht

theorem isWordStart_of_head {d : Dialect} {last : Option Char} {c : Char} {cs : List Char} {n : Nat}
    (h : head d last c cs = (some .word, n)) :
    isWordStart c = true ∧ n = (cs.takeWhile isWordChar).length := by
  obtain ⟨o, hfits, htaken⟩ := exists_opening h
  cases o with
  | word => exact ⟨hfits, (Prod.mk.inj htaken).2.symm⟩
  | dollar =>
      rcases dollarSize_kind cs with hkind | hkind <;> rw [Opening.taken, hkind] at htaken <;>
        cases htaken
  | blank | line | block | single | double | bracket | number | letter | pair | sign =>
      cases htaken

namespace Cut

variable {d : Dialect} {ts : List Token} {t : Token}

theorem nil (d : Dialect) : Cut d [] where
  source := ⟨[], List.nil_infix⟩
  plain := fun _ ht => absurd ht List.not_mem_nil

theorem exists_head (h : Cut d ts) (ht : t ∈ ts) :
    ∃ last c body rest, t.text = c :: body ∧
      head d last c (body ++ rest) = (some t.kind, body.length) := by
  obtain ⟨s, hs⟩ := h.source
  exact (lexes_lex d s).of_mem (hs.subset ht)

theorem text_ne_nil (h : Cut d ts) (ht : t ∈ ts) : t.text ≠ [] := by
  obtain ⟨-, c, body, -, htext, -⟩ := h.exists_head ht
  rw [htext]
  exact List.cons_ne_nil _ _

theorem isWordChar_of_mem (h : Cut d ts) (ht : t ∈ ts) (hword : t.isWord = true) :
    ∀ c ∈ t.text, isWordChar c = true := by
  obtain ⟨last, c, body, rest, htext, hhead⟩ := h.exists_head ht
  rw [beq_iff_eq.1 hword] at hhead
  obtain ⟨hstart, hbody⟩ := isWordStart_of_head hhead
  have htake := List.prefix_iff_eq_take.1
    (List.takeWhile_prefix isWordChar (l := body ++ rest))
  rw [← hbody, List.take_left] at htake
  rw [htext]
  intro e he
  rcases List.mem_cons.1 he with rfl | he
  · exact isWordChar_of_isWordStart hstart
  · rw [← htake] at he
    exact List.mem_takeWhile_imp he

theorem span_eq_nil_iff (h : Cut d ts) : span ts = [] ↔ ts = [] := by
  cases ts with
  | nil => exact iff_of_true rfl rfl
  | cons t ts =>
      refine iff_of_false (fun hspan => ?_) (List.cons_ne_nil _ _)
      exact h.text_ne_nil List.mem_cons_self (List.append_eq_nil_iff.1 hspan).1

end Cut

end Token

def Token.IsReadable (d : Dialect) (t : Token) : Prop :=
  t.isName = true → ∃ name, Identifier.read d t.text = .ok name

structure Alike (d : Dialect) (total : Prop) (ts us : List Token) : Prop where
  folded : ts.map Token.folded = us.map Token.folded
  left : Token.Cut d ts
  right : Token.Cut d us
  readable : total → ∀ t ∈ ts, t.IsReadable d

namespace Alike

variable {d : Dialect} {total : Prop} {ts us : List Token}

theorem nil (d : Dialect) (total : Prop) : Alike d total [] [] :=
  ⟨rfl, .nil d, .nil d, fun _ _ ht => absurd ht List.not_mem_nil⟩

theorem length_eq (h : Alike d total ts us) : ts.length = us.length := by
  simpa using congrArg List.length h.folded

/-- What is found without regard to layout and case is found in both. -/
theorem eq_of {α : Type} {f : List Token → α} (hf : ∀ ts, f (ts.map Token.folded) = f ts)
    (h : Alike d total ts us) : f ts = f us := by
  rw [← hf ts, h.folded, hf]

theorem of_infix {ts' us' : List Token} (h : Alike d total ts us) (hts : ts' <:+: ts)
    (hus : us' <:+: us) (hf : ts'.map Token.folded = us'.map Token.folded) :
    Alike d total ts' us' where
  folded := hf
  left := h.left.of_infix hts
  right := h.right.of_infix hus
  readable := fun htotal t ht => h.readable htotal t (hts.subset ht)

theorem map_of {f : List Token → List Token}
    (hf : ∀ ts, f (ts.map Token.folded) = (f ts).map Token.folded) (hsub : ∀ ts, f ts <:+: ts)
    (h : Alike d total ts us) : Alike d total (f ts) (f us) :=
  h.of_infix (hsub ts) (hsub us) (by rw [← hf, h.folded, hf])

theorem tail (h : Alike d total ts us) : Alike d total ts.tail us.tail :=
  h.map_of (fun _ => List.map_tail.symm) (fun ts => (List.tail_suffix ts).isInfix)

theorem drop (n : Nat) (h : Alike d total ts us) : Alike d total (ts.drop n) (us.drop n) :=
  h.map_of (fun _ => List.map_drop.symm) (fun ts => (List.drop_suffix n ts).isInfix)

theorem take (n : Nat) (h : Alike d total ts us) : Alike d total (ts.take n) (us.take n) :=
  h.map_of (fun _ => List.map_take.symm) (fun ts => (List.take_prefix n ts).isInfix)

theorem dropWhile {p : Token → Bool} (hp : ∀ t, p (Token.folded t) = p t)
    (h : Alike d total ts us) : Alike d total (ts.dropWhile p) (us.dropWhile p) :=
  h.map_of (fun ts => Token.dropWhile_map_folded ts hp)
    (fun _ => (List.dropWhile_suffix p).isInfix)

theorem group (depth : Nat) (h : Alike d total ts us) :
    Alike d total (Token.groupFrom depth ts).1 (Token.groupFrom depth us).1 :=
  h.map_of (f := fun ts => (Token.groupFrom depth ts).1)
    (fun ts => by rw [Token.groupFrom_map_folded])
    (fun ts => (Token.groupFrom_prefix depth ts).isInfix)

theorem afterGroup (depth : Nat) (h : Alike d total ts us) :
    Alike d total (Token.groupFrom depth ts).2 (Token.groupFrom depth us).2 :=
  h.map_of (f := fun ts => (Token.groupFrom depth ts).2)
    (fun ts => by rw [Token.groupFrom_map_folded])
    (fun ts => (Token.groupFrom_suffix depth ts).isInfix)

theorem splitCommas (h : Alike d total ts us) :
    List.Forall₂ (Alike d total) (Token.splitCommas ts) (Token.splitCommas us) := by
  have hparts : (Token.splitCommas ts).map (List.map Token.folded) =
      (Token.splitCommas us).map (List.map Token.folded) := by
    rw [← Token.splitCommas_map_folded, h.folded, Token.splitCommas_map_folded]
  have hts : ∀ part ∈ Token.splitCommas ts, part <:+: ts := fun _ => Token.splitCommas_infix
  have hus : ∀ part ∈ Token.splitCommas us, part <:+: us := fun _ => Token.splitCommas_infix
  generalize Token.splitCommas ts = parts at hparts hts
  generalize Token.splitCommas us = parts' at hparts hus
  induction parts generalizing parts' with
  | nil =>
      rw [List.map_nil, eq_comm, List.map_eq_nil_iff] at hparts
      rw [hparts]
      exact .nil
  | cons part parts ih =>
      cases parts' with
      | nil => cases hparts
      | cons part' parts' =>
          obtain ⟨hpart, hparts⟩ := List.cons.inj hparts
          refine .cons ?_ (ih (fun p hp => hts p (List.mem_cons_of_mem _ hp)) parts' hparts
            (fun p hp => hus p (List.mem_cons_of_mem _ hp)))
          exact h.of_infix (hts part List.mem_cons_self) (hus part' List.mem_cons_self) hpart

/-- Neither list has a token, or both begin with tokens that are alike. -/
theorem exists_cons (h : Alike d total ts us) :
    (ts = [] ∧ us = []) ∨ ∃ t u ts' us', ts = t :: ts' ∧ us = u :: us' ∧ t.folded = u.folded := by
  have hf := h.folded
  cases ts with
  | nil =>
      rw [List.map_nil, eq_comm, List.map_eq_nil_iff] at hf
      exact .inl ⟨rfl, hf⟩
  | cons t ts =>
      cases us with
      | nil => cases hf
      | cons u us => exact .inr ⟨t, u, ts, us, rfl, rfl, (List.cons.inj hf).1⟩

theorem read_iff {t u : Token} (h : Alike d total (t :: ts) (u :: us)) {name : String} :
    Identifier.read d t.text = .ok name ↔ Identifier.read d u.text = .ok name := by
  have hf : t.folded = u.folded := (List.cons.inj h.folded).1
  have hword : t.isWord = u.isWord := by rw [← t.isWord_folded, hf, u.isWord_folded]
  by_cases ht : t.isWord = true
  · have hu : u.isWord = true := hword ▸ ht
    have htext := congrArg Token.text hf
    rw [t.text_folded_of_word ht, u.text_folded_of_word hu] at htext
    rw [← Identifier.read_asciiUpper d (h.left.isWordChar_of_mem List.mem_cons_self ht), htext,
      Identifier.read_asciiUpper d (h.right.isWordChar_of_mem List.mem_cons_self hu)]
  · have hu : ¬ u.isWord = true := hword ▸ ht
    have htext := congrArg Token.text hf
    rw [t.text_folded_of_not_word (Bool.eq_false_iff.2 ht),
      u.text_folded_of_not_word (Bool.eq_false_iff.2 hu)] at htext
    rw [htext]

end Alike

def SameSource (d : Dialect) (total : Prop) (s t : List Char) : Prop :=
  ∃ ts us, Alike d total ts us ∧ s = Token.span ts ∧ t = Token.span us

namespace SameSource

variable {d : Dialect} {total : Prop} {s t : List Char}

theorem canonicalSql_eq (h : SameSource d total s t) : canonicalSql d s = canonicalSql d t := by
  obtain ⟨ts, us, h, rfl, rfl⟩ := h
  rw [canonicalSql, canonicalSql, h.left.canonical_span, h.right.canonical_span,
    h.eq_of Token.render_map_folded]

theorem canonicalExpr_eq (h : SameSource d total s t) : canonicalExpr d s = canonicalExpr d t := by
  obtain ⟨ts, us, h, rfl, rfl⟩ := h
  rw [canonicalExpr, canonicalExpr, h.left.canonicalExpr_span, h.right.canonicalExpr_span]
  congr 1
  exact h.eq_of (f := fun ts =>
    Token.render (Token.unwrapAll (Token.unwrapOperands (Token.dropCasts ts)))) (fun _ => by simp)

theorem isEmpty_eq (h : SameSource d total s t) : s.isEmpty = t.isEmpty := by
  obtain ⟨ts, us, h, rfl, rfl⟩ := h
  have hnil : ts = [] ↔ us = [] := by
    rw [← List.length_eq_zero_iff, h.length_eq, List.length_eq_zero_iff]
  rw [Bool.eq_iff_iff, List.isEmpty_iff, List.isEmpty_iff, h.left.span_eq_nil_iff, hnil,
    h.right.span_eq_nil_iff]

end SameSource

end SchemaDrift
