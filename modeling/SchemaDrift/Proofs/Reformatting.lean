import SchemaDrift.Proofs.Collecting
import SchemaDrift.Proofs.Definitions
import SchemaDrift.Proofs.Substance

namespace SchemaDrift

namespace Token

theorem quotedSize_of_not_mem {close : Char} (hclose : close ≠ '\\') {s : List Char}
    (hs : '\\' ∉ s) (backslash backslash' : Bool) :
    Text.quotedSize close backslash s = Text.quotedSize close backslash' s := by
  have hsame {b : Bool} (b' : Bool) {n : ℕ} (h : Text.quotedSize close b s = some n) :
      Text.quotedSize close b' s = some n := by
    obtain ⟨body, rest, rfl, rfl, htail⟩ := (Text.quotedSize_eq_some_iff hclose).1 h
    have hbody : '\\' ∉ body := fun h => hs (List.mem_append_left rest h)
    exact (Text.quotedSize_eq_some_iff hclose).2 ⟨body, rest, rfl, rfl, htail.of_not_mem hbody b'⟩
  exact Option.ext fun n => ⟨hsame backslash', hsame backslash⟩

/-- A string literal without a backslash is plain. -/
theorem isPlain_of_unescaped {t : Token} (h : t.text.head? = some '\'' → '\\' ∉ t.text) :
    t.isPlain = true := by
  by_cases hquote : t.text.head? = some '\''
  · have htail : '\\' ∉ t.text.tail := fun hmem => h hquote (List.mem_of_mem_tail hmem)
    rw [isPlain, quotedSize_of_not_mem (by decide) htail true false, beq_self_eq_true,
      Bool.or_true]
  · rw [isPlain, bne_iff_ne.2 hquote, Bool.true_or]

theorem isPlain_of_isWord {d : Dialect} {s : List Char} {t : Token} (ht : t ∈ lex d s)
    (hword : t.isWord = true) : t.isPlain = true := by
  obtain ⟨last, c, body, rest, htext, hhead⟩ := (lexes_lex d s).of_mem ht
  rw [beq_iff_eq.1 hword] at hhead
  have hc : c ≠ '\'' := by
    rintro rfl
    exact absurd (isWordStart_of_head hhead).1 (by decide)
  rw [isPlain, htext, List.head?_cons, bne_iff_ne.2 (fun h => hc (Option.some.inj h)), Bool.true_or]

end Token

/-- The same tokens in both texts, up to layout and the case of words, and no string literal that
holds a backslash. -/
structure Reformatted (d : Dialect) (s t : String) : Prop where
  folded : (Token.lex d s.toList).map Token.folded = (Token.lex d t.toList).map Token.folded
  unescaped : ∀ u ∈ Token.lex d s.toList, u.text.head? = some '\'' → '\\' ∉ u.text

def NamesReadable (d : Dialect) (s : String) : Prop :=
  ∀ t ∈ Token.lex d s.toList, t.IsReadable d

namespace Reformatted

variable {d : Dialect} {s t : String}

theorem isPlain_of_mem (h : Reformatted d s t) {u : Token} (hu : u ∈ Token.lex d t.toList) :
    u.isPlain = true := by
  by_cases hword : u.isWord = true
  · exact Token.isPlain_of_isWord hu hword
  · have hmem := List.mem_map_of_mem (f := Token.folded) hu
    rw [← h.folded] at hmem
    obtain ⟨v, hv, hfolded⟩ := List.mem_map.1 hmem
    have hword' : v.isWord = u.isWord := by rw [← v.isWord_folded, hfolded, u.isWord_folded]
    have htext := congrArg Token.text hfolded
    rw [Bool.not_eq_true] at hword
    rw [v.text_folded_of_not_word (hword' ▸ hword), u.text_folded_of_not_word hword] at htext
    exact Token.isPlain_of_unescaped (htext ▸ h.unescaped v hv)

theorem alike (h : Reformatted d s t) :
    Alike d (NamesReadable d s) (Token.lex d s.toList) (Token.lex d t.toList) where
  folded := h.folded
  left := ⟨⟨_, List.infix_rfl⟩, fun u hu => Token.isPlain_of_unescaped (h.unescaped u hu)⟩
  right := ⟨⟨_, List.infix_rfl⟩, fun _ hu => h.isPlain_of_mem hu⟩
  readable := fun hread => hread

end Reformatted

open Reader

section

variable {d : Dialect}

/-- Whether all that an object keeps as written is literals. -/
def Object.isPlain (d : Dialect) : Object → Bool
  | .table t => t.isPlain d
  | _ => true

theorem Object.substance_eq_of_isPlain {a b : Object} (ha : a.isPlain d = true)
    (hb : b.isPlain d = true) (h : a.settled d = b.settled d) : a.substance = b.substance := by
  cases a with
  | table s =>
      cases b with
      | table t =>
          have hst := Object.table.inj h
          rw [Table.settled_of_isPlain ha, Table.settled_of_isPlain hb] at hst
          exact congrArg Object.table hst
      | _ => cases h
  | _ =>
      cases b with
      | table => cases h
      | _ => exact h

theorem Definition.settled_toObject {a b : Definition} (h : a.settled d = b.settled d) :
    a.toObject.settled d = b.toObject.settled d := by
  cases a with
  | object o =>
      cases b with
      | object o' => exact Definition.object.inj h
      | change => cases h
  | change =>
      cases b with
      | object => cases h
      | change => rw [toObject, toObject, (Definition.change.inj h).2.2]

theorem Object.ofStatement?_agrees {s t : String} (h : Reformatted d s t) :
    Result (NamesReadable d s) (Option.Rel fun a b => a.settled d = b.settled d)
      (Object.ofStatement? d s) (Object.ofStatement? d t) := by
  refine (Definition.ofChars?_agrees h.alike).bind fun a b hab => .found ?_
  cases hab with
  | none => exact .none
  | some hab => exact .some (Definition.settled_toObject hab)

end

def Statement.Item.text : Statement.Item → String
  | .ok s => s.text
  | .error u => u.snippet

def Statement.Item.Reformatted (d : Dialect) (x y : Statement.Item) : Prop :=
  x.isOk = y.isOk ∧ SchemaDrift.Reformatted d (Item.text x) (Item.text y)

namespace Script

/-- The same statements, one by one, up to layout and letter case. -/
def Reformatted (d : Dialect) (s t : Script) : Prop :=
  List.Forall₂ (Statement.Item.Reformatted d) (Statement.split d s.sql) (Statement.split d t.sql)

def NamesReadable (d : Dialect) (s : Script) : Prop :=
  ∀ x ∈ Statement.split d s.sql, SchemaDrift.NamesReadable d (Statement.Item.text x)

end Script

namespace Finding

variable {d : Dialect}

theorem ofItem_agrees (label label' : String) {x y : Statement.Item}
    (h : Statement.Item.Reformatted d x y) :
    Result (NamesReadable d (Statement.Item.text x)) (Option.Rel (Finding.Agree d))
      (ofItem d label x) (ofItem d label' y) := by
  obtain ⟨hok, h⟩ := h
  cases x with
  | ok s =>
      cases y with
      | error => cases hok
      | ok t =>
          refine (Definition.ofChars?_agrees h.alike).bind fun a b hab => .found ?_
          cases hab with
          | none => exact .none
          | some hab => exact .some (.defined hab)
  | error u =>
      cases y with
      | ok => cases hok
      | error v =>
          refine (Grammar.agrees_rawStatement h.alike).bind fun a b hab => .found ?_
          subst hab
          exact .some (.unfinished a)

theorem ofItems_agrees (label label' : String) {xs ys : List Statement.Item}
    (h : List.Forall₂ (Statement.Item.Reformatted d) xs ys) :
    Result (∀ x ∈ xs, NamesReadable d (Statement.Item.text x))
      (List.Forall₂ (Finding.Agree d)) (ofItems d label xs) (ofItems d label' ys) := by
  induction h with
  | nil => exact .found .nil
  | cons hxy _ ih =>
      rw [ofItems, ofItems]
      refine Result.cons (P := fun x => NamesReadable d (Statement.Item.text x))
        (ofItem_agrees label label' hxy) fun f g hfg => ?_
      refine ih.bind fun fs gs hfgs => .found ?_
      cases hfg with
      | none => exact hfgs
      | some hfg => exact .cons hfg hfgs

theorem ofScripts_agrees {scripts scripts' : List Script}
    (h : List.Forall₂ (Script.Reformatted d) scripts scripts') :
    Result (∀ s ∈ scripts, s.NamesReadable d) (List.Forall₂ (Finding.Agree d))
      (ofScripts d scripts) (ofScripts d scripts') := by
  induction h with
  | nil => exact .found .nil
  | cons hst _ ih =>
      rw [ofScripts, ofScripts]
      refine Result.cons (P := Script.NamesReadable d) (ofItems_agrees _ _ hst)
        fun fs gs hfg => ?_
      exact ih.bind fun fs' gs' hfgs => .found (List.rel_append hfg hfgs)

end Finding

namespace Model

variable {d : Dialect}

def isPlain (d : Dialect) (m : Model) : Bool := m.objects.all (Object.isPlain d)

theorem Agree.map_substance {m n : Model} (h : Agree d m n) (hm : m.isPlain d = true)
    (hn : n.isPlain d = true) :
    m.objects.map Object.substance = n.objects.map Object.substance := by
  have hm := List.all_eq_true.1 hm
  have hn := List.all_eq_true.1 hn
  unfold Agree at h
  generalize m.objects = as, n.objects = bs at h hm hn
  induction as generalizing bs with
  | nil =>
      rw [List.map_nil, eq_comm, List.map_eq_nil_iff] at h
      rw [h]
  | cons a as ih =>
      cases bs with
      | nil => cases h
      | cons b bs =>
          obtain ⟨hab, h⟩ := List.cons.inj h
          rw [List.map_cons, List.map_cons, Object.substance_eq_of_isPlain
            (hm a List.mem_cons_self) (hn b List.mem_cons_self) hab]
          exact congrArg _ (ih bs h (fun o ho => hm o (List.mem_cons_of_mem a ho))
            (fun o ho => hn o (List.mem_cons_of_mem b ho)))

theorem ofScripts_agrees {scripts scripts' : List Script}
    (h : List.Forall₂ (Script.Reformatted d) scripts scripts') :
    Result (∀ s ∈ scripts, s.NamesReadable d) (Agree d)
      (ofScripts d scripts) (ofScripts d scripts') :=
  (Finding.ofScripts_agrees h).bind fun _ _ hfg => .found (agree_ofFindings hfg)

end Model

/-- Layout and letter case do not matter. A statement and the same statement reformatted define
nothing, or objects of one key and one substance. Schemas read from scripts and from the same
scripts reformatted differ at most where one of them differs from itself. That a name cannot be
read is the only fault there can be, and it is one in both. -/
theorem reformatting_preserves_substance (d : Dialect) :
    (∀ s t, Reformatted d s t →
      Result (NamesReadable d s)
        (Option.Rel fun a b => a.key = b.key ∧
          (a.isPlain d = true → b.isPlain d = true → a.substance = b.substance))
        (Object.ofStatement? d s) (Object.ofStatement? d t)) ∧
    ∀ scripts scripts', List.Forall₂ (Script.Reformatted d) scripts scripts' →
      Result (∀ s ∈ scripts, s.NamesReadable d)
        (fun m n => m.keys = n.keys ∧ (m.isPlain d = true → n.isPlain d = true →
          m.objects.map Object.substance = n.objects.map Object.substance ∧
          ∀ detectRenames, (Plan.between detectRenames m n).operations = [] ↔
            ∀ t, Object.table t ∈ m.objects → t.Unambiguous))
        (Model.ofScripts d scripts) (Model.ofScripts d scripts') := by
  constructor
  · intro s t h
    refine (Object.ofStatement?_agrees h).mono id fun x y hxy => ?_
    cases hxy with
    | none => exact .none
    | some hab =>
        exact .some ⟨Object.key_eq_of_settled hab,
          fun ha hb => Object.substance_eq_of_isPlain ha hb hab⟩
  · intro scripts scripts' h
    refine (Model.ofScripts_agrees h).mono id fun m n hmn => ⟨?_, fun hm hn => ?_⟩
    · have hkeys := congrArg (List.map Object.key) hmn
      simpa [Model.keys, Function.comp_def] using hkeys
    · have hsub := hmn.map_substance hm hn
      exact ⟨hsub, fun _ => Plan.operations_eq_nil_iff_of_substance hsub⟩

def notesWrittenOut : String :=
  "CREATE TABLE Notes (\n  Id INT, -- key\n  Body CHAR (9) DEFAULT 'a B' COMMENT 'c'\n)"

def notesOnOneLine : String :=
  "create table notes(id int,body char(9)default 'a B'comment 'c')"

def keysWrittenOut : Script := ⟨"a.sql", "CREATE TABLE t (a int, b int,\n  KEY (a), KEY (a, b)\n);"⟩

def keysOnOneLine : Script := ⟨"b.sql", "create table t(a int,b int,key(a),key(a,b));"⟩

theorem reformatted_notes : Reformatted .mySql notesWrittenOut notesOnOneLine :=
  ⟨by decide +kernel, by decide +kernel⟩

theorem reformatted_keys :
    List.Forall₂ (Script.Reformatted .mySql) [keysWrittenOut] [keysOnOneLine] := by
  have hs : Statement.split .mySql keysWrittenOut.sql =
      [.ok ⟨"CREATE TABLE t (a int, b int,\n  KEY (a), KEY (a, b)\n)", 0, 1⟩] := by
    decide +kernel
  have ht : Statement.split .mySql keysOnOneLine.sql =
      [.ok ⟨"create table t(a int,b int,key(a),key(a,b))", 0, 1⟩] := by
    decide +kernel
  refine .cons ?_ .nil
  rw [Script.Reformatted, hs, ht]
  exact .cons ⟨rfl, by decide +kernel, by decide +kernel⟩ .nil

theorem ambiguous_keys {s : Script} (hs : s ∈ [keysWrittenOut, keysOnOneLine]) :
    (Model.ofScripts .mySql [s]).toOption.any (fun m =>
      m.isPlain .mySql && m.objects.any Plan.isAmbiguous) = true := by
  simp only [List.mem_cons, List.not_mem_nil, or_false] at hs
  rcases hs with rfl | rfl <;> decide +kernel

theorem reformatting_preserves_substance_notes :
    (∃ a b, Object.ofStatement? .mySql notesWrittenOut = .ok (some a) ∧
      Object.ofStatement? .mySql notesOnOneLine = .ok (some b) ∧
      a.key = b.key ∧ a.substance = b.substance) ∧
    ∃ m n, Model.ofScripts .mySql [keysWrittenOut] = .ok m ∧
      Model.ofScripts .mySql [keysOnOneLine] = .ok n ∧
      m.objects.map Object.substance = n.objects.map Object.substance ∧
      ∀ detectRenames, (Plan.between detectRenames m n).operations = [] ↔
        ∀ t, Object.table t ∈ m.objects → t.Unambiguous := by
  have hnotes := (reformatting_preserves_substance .mySql).1 _ _ reformatted_notes
  have hkeys := (reformatting_preserves_substance .mySql).2 _ _ reformatted_keys
  have hplain (s : String) (hs : s = notesWrittenOut ∨ s = notesOnOneLine) :
      (Object.ofStatement? .mySql s).toOption.any (Option.any (Object.isPlain .mySql)) = true := by
    rcases hs with rfl | rfl <;> decide +kernel
  constructor
  · have ha := hplain _ (.inl rfl)
    have hb := hplain _ (.inr rfl)
    generalize Object.ofStatement? .mySql notesWrittenOut = x at ha hnotes ⊢
    generalize Object.ofStatement? .mySql notesOnOneLine = y at hb hnotes ⊢
    cases hnotes with
    | fault => cases ha
    | found hab =>
        cases hab with
        | none => cases ha
        | some hab => exact ⟨_, _, rfl, rfl, hab.1, hab.2 ha hb⟩
  · have hm := ambiguous_keys List.mem_cons_self
    have hn := ambiguous_keys (List.mem_cons_of_mem _ List.mem_cons_self)
    generalize Model.ofScripts .mySql [keysWrittenOut] = x at hm hkeys ⊢
    generalize Model.ofScripts .mySql [keysOnOneLine] = y at hn hkeys ⊢
    cases hkeys with
    | fault => cases hm
    | found hmn =>
        exact ⟨_, _, rfl, rfl, hmn.2 (Bool.and_eq_true_iff.1 hm).1 (Bool.and_eq_true_iff.1 hn).1⟩

/-- Reformatting shows that a table with two keys of one name differs from itself. -/
theorem reformatting_reports_drift : ¬ ∀ (d : Dialect) (scripts scripts' : List Script)
    (m n : Model), List.Forall₂ (Script.Reformatted d) scripts scripts' →
    Model.ofScripts d scripts = .ok m → Model.ofScripts d scripts' = .ok n →
    m.isPlain d = true → n.isPlain d = true →
    ∀ detectRenames, (Plan.between detectRenames m n).operations = [] := by
  intro h
  have hread := ambiguous_keys List.mem_cons_self
  have hread' := ambiguous_keys (List.mem_cons_of_mem _ List.mem_cons_self)
  have hagree := Model.ofScripts_agrees reformatted_keys
  have hnone := h .mySql [keysWrittenOut] [keysOnOneLine]
  generalize Model.ofScripts .mySql [keysWrittenOut] = x at hread hagree hnone
  generalize Model.ofScripts .mySql [keysOnOneLine] = y at hread' hagree hnone
  cases hagree with
  | fault => cases hread
  | @found m n hmn =>
      obtain ⟨hplain, hambiguous⟩ := Bool.and_eq_true_iff.1 hread
      obtain ⟨o, ho, hambiguous⟩ := List.any_eq_true.1 hambiguous
      obtain ⟨t, rfl, ht⟩ := Plan.not_unambiguous hambiguous
      have hplain' := (Bool.and_eq_true_iff.1 hread').1
      have hnone := hnone m n reformatted_keys rfl rfl hplain hplain' true
      have hsub := hmn.map_substance hplain hplain'
      exact ht ((Plan.operations_eq_nil_iff_of_substance hsub).1 hnone t ho)

end SchemaDrift
