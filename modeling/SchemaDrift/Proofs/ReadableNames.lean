import SchemaDrift.Proofs.Blame
import SchemaDrift.Proofs.ByteScans
import SchemaDrift.Proofs.Lossless
import SchemaDrift.Proofs.Reformatting

namespace SchemaDrift

namespace Text

theorem byteSize_trim_le (s : List Char) : byteSize (trim s) ≤ byteSize s := by
  have hend : trim s <+: trimStart s := by
    rw [trim, trimEnd, ← List.reverse_suffix, List.reverse_reverse]
    exact List.dropWhile_suffix _
  exact byteSize_le_of_sublist (hend.sublist.trans (List.dropWhile_suffix _).sublist)

end Text

namespace Token

def splits (t : Token) : Bool :=
  t.isName && decide (2 ≤ Text.byteSize t.text) && !Identifier.endsAscii t.text

variable {d : Dialect} {last : Option Char} {c : Char} {cs s : List Char} {t : Token}

/-- A token begins where what is left of the text does. -/
theorem Lexes.exists_suffix_of_mem {gap trailing : List Char} {ts : List Token}
    (h : Lexes d last gap s ts trailing) (ht : t ∈ ts) :
    ∃ last c body rest, t.text = c :: body ∧
      head d last c (body ++ rest) = (some t.kind, body.length) ∧
        c :: body ++ rest <:+ s := by
  induction h with
  | nil => cases ht
  | skip h u ih =>
      obtain ⟨last, c, body, rest, htext, hhead, hsuffix⟩ := ih ht
      exact ⟨last, c, body, rest, htext, hhead,
        hsuffix.trans ⟨_ :: _, List.cons_append ..⟩⟩
  | token h u ih =>
      rcases List.mem_cons.1 ht with rfl | ht
      · exact ⟨_, _, _, _, rfl, h, List.suffix_rfl⟩
      · obtain ⟨last, c, body, rest, htext, hhead, hsuffix⟩ := ih ht
        exact ⟨last, c, body, rest, htext, hhead,
          hsuffix.trans ⟨_ :: _, List.cons_append ..⟩⟩

theorem le_toNat_of_isWordChar (h : isWordChar c = true) : 35 ≤ c.toNat := by
  simp only [isWordChar, Bool.or_eq_true, decide_eq_true_eq, beq_iff_eq] at h
  rcases h with (((h | rfl) | rfl) | rfl) | h
  · exact Nat.le_trans (by decide) (Text.toNat_of_isAlphanum h).1
  · decide
  · decide
  · decide
  · exact Nat.le_trans (by decide) h

theorem not_isSpace_of_isWordChar (h : isWordChar c = true) (hc : Identifier.isAscii c = true) :
    Text.isSpace c = false := by
  have hle := le_toNat_of_isWordChar h
  have hlt : c.toNat < 128 := of_decide_eq_true hc
  refine Bool.eq_false_iff.2 fun hspace => ?_
  simp only [Text.isSpace, Text.inRanges, Text.spaceRanges, List.any_cons, List.any_nil,
    Bool.or_eq_true, Bool.and_eq_true, decide_eq_true_eq, Bool.false_eq_true, or_false] at hspace
  omega

theorem not_isSpace_of_marks {close : Char} {backslash : Bool}
    (h : Marks d last c close backslash) :
    Text.isSpace c = false ∧ Text.isSpace close = false := by
  cases h <;> exact ⟨by decide, by decide⟩

theorem isWordChar_of_isWord (ht : t ∈ lex d s) (hword : t.isWord = true) :
    ∀ c ∈ t.text, isWordChar c = true := by
  obtain ⟨us, vs, hlex⟩ := List.append_of_mem ht
  have hcut : Cut d [t] :=
    ⟨⟨s, us, vs, by rw [hlex, List.append_assoc, List.singleton_append]⟩,
      List.forall_mem_singleton.2 (isPlain_of_isWord ht hword)⟩
  exact hcut.isWordChar_of_mem (List.mem_singleton.2 rfl) hword

/-- A quoted name ends with the mark that closes it, or where the text does. -/
theorem getLast?_of_isQuoted (ht : t ∈ lex d s) (hquoted : t.kind = .quoted) :
    (∃ last c close, Marks d last c close false ∧ t.text.head? = some c ∧
      (t.text.getLast? = some close ∨ t.text.getLast? = s.getLast?)) := by
  obtain ⟨last, c, body, rest, htext, hhead, u, hu⟩ := (lexes_lex d s).exists_suffix_of_mem ht
  rw [hquoted] at hhead
  obtain ⟨close, hmarks, hsize⟩ := marks_of_head hhead
  refine ⟨last, c, close, hmarks, by rw [htext, List.head?_cons], ?_⟩
  rw [quotedSize] at hsize
  cases hend : Text.quotedSize close false (body ++ rest) with
  | none =>
      rw [hend, Option.getD_none, List.length_append] at hsize
      obtain rfl := List.length_eq_zero_iff.1 (Nat.left_eq_add.1 hsize)
      rw [List.append_nil] at hu
      rw [htext, ← hu, List.getLast?_append, List.getLast?_cons, Option.some_or]
      exact .inr rfl
  | some n =>
      rw [hend, Option.getD_some] at hsize
      obtain ⟨body', rest', hsplit, hlen, htail⟩ :=
        (Text.quotedSize_eq_some_iff (head_of_marks hmarks (body ++ rest)).1).1 hend
      obtain ⟨rfl, -⟩ := List.append_inj hsplit (hsize.trans hlen)
      obtain ⟨init, rfl⟩ := htail.exists_concat
      rw [htext, ← List.cons_append, List.getLast?_concat]
      exact .inl rfl

theorem isAscii_of_endsAscii (h : Identifier.endsAscii s = true) :
    (∀ c, s.head? = some c → Identifier.isAscii c = true) ∧
      ∀ c, s.getLast? = some c → Identifier.isAscii c = true := by
  rw [Identifier.endsAscii, Bool.and_eq_true] at h
  refine ⟨fun c hc => ?_, fun c hc => ?_⟩
  · simpa [hc] using h.1
  · simpa [hc] using h.2

/-- White space is no part of a name that begins and ends with ASCII. -/
theorem trim_text_of_isName (hs : ∀ c, s.getLast? = some c → Text.isSpace c = false)
    (ht : t ∈ lex d s) (hname : t.isName = true) (hends : Identifier.endsAscii t.text = true) :
    Text.trim t.text = t.text := by
  rw [isName, Bool.or_eq_true, beq_iff_eq, beq_iff_eq] at hname
  rcases hname with hword | hquoted
  · obtain ⟨hfirst, hlast⟩ := isAscii_of_endsAscii hends
    have hchars := isWordChar_of_isWord ht (beq_iff_eq.2 hword)
    exact Text.trim_of_ends
      (fun c hc => not_isSpace_of_isWordChar (hchars c (List.mem_of_head? hc)) (hfirst c hc))
      (fun c hc => not_isSpace_of_isWordChar (hchars c (List.mem_of_getLast? hc)) (hlast c hc))
  · obtain ⟨last, c, close, hmarks, hfirst, hlast⟩ := getLast?_of_isQuoted ht hquoted
    obtain ⟨hopen, hclose⟩ := not_isSpace_of_marks hmarks
    refine Text.trim_of_ends (fun e he => ?_) (fun e he => ?_)
    · rw [hfirst] at he
      cases he
      exact hopen
    · rcases hlast with hlast | hlast
      · rw [hlast] at he
        cases he
        exact hclose
      · exact hs e (hlast ▸ he)

/-- A name of a text without white space at its end can be read, unless it begins or ends with a
character beyond ASCII. -/
theorem isReadable_of_not_splits (hs : ∀ c, s.getLast? = some c → Text.isSpace c = false)
    (ht : t ∈ lex d s) (hsplits : t.splits = false) : t.IsReadable d := by
  intro hname
  rw [splits, hname, Bool.true_and, Bool.and_eq_false_iff, decide_eq_false_iff_not,
    Bool.not_eq_false'] at hsplits
  rcases hsplits with hshort | hends
  · have hle := Text.byteSize_trim_le t.text
    refine ⟨_, if_pos ?_⟩
    omega
  · refine isReadable_of_endsAscii ?_ hname
    rwa [trim_text_of_isName hs ht hname hends]

end Token

def OnlyFaults {α : Type} (E : Fault → Prop) (r : Except Fault α) : Prop :=
  ∀ f, r = .error f → E f

namespace OnlyFaults

variable {α β : Type} {E E' : Fault → Prop}

theorem ok (a : α) : OnlyFaults E (.ok a) := fun _ h => by cases h

theorem bind {r : Except Fault α} {k : α → Except Fault β} (hr : OnlyFaults E r)
    (hk : ∀ a, OnlyFaults E (k a)) : OnlyFaults E (r >>= k) := by
  cases r with
  | error f => exact fun g h => hr g (congrArg Except.error (Except.error.inj h))
  | ok a => exact hk a

theorem mono {r : Except Fault α} (hr : OnlyFaults E r) (h : ∀ f, E f → E' f) :
    OnlyFaults E' r :=
  fun f hf => h f (hr f hf)

theorem exists_ok {r : Except Fault α} (hr : OnlyFaults E r) (h : ∀ f, ¬ E f) :
    ∃ a, r = .ok a := by
  cases r with
  | error f => exact absurd (hr f rfl) (h f)
  | ok a => exact ⟨a, rfl⟩

end OnlyFaults

open Reader Grammar

variable {d : Dialect} {s : List Char}

/-- The fault of a name among the tokens of a text that begins or ends with a character beyond
ASCII. -/
def Splits (d : Dialect) (s : List Char) (f : Fault) : Prop :=
  ∃ t ∈ Token.lex d s, t.splits = true ∧ Identifier.read d t.text = .error f

theorem blames_splits (hs : ∀ c, s.getLast? = some c → Text.isSpace c = false) :
    Blames d (· ∈ Token.lex d s) (Splits d s) := by
  intro t ht hname f hread
  refine ⟨t, ht, ?_, hread⟩
  cases hsplits : t.splits with
  | true => rfl
  | false =>
      obtain ⟨name, hok⟩ := Token.isReadable_of_not_splits hs ht hsplits hname
      rw [hok] at hread
      cases hread

theorem onlyFaults_run? {α : Type} {p : Reader α}
    (hp : Sound d (· ∈ Token.lex d s) (Splits d s) p) :
    OnlyFaults (Splits d s) (Reader.run? p d s) :=
  fun _ h => hp.run? (fun _ ht => ht) h

theorem onlyFaults_rawStatement (hs : ∀ c, s.getLast? = some c → Text.isSpace c = false) :
    OnlyFaults (Splits d s) (rawStatement d s) := by
  unfold rawStatement
  dsimp only
  split
  · exact (onlyFaults_run? (sound_createLabel (blames_splits hs))).bind fun _ => .ok _
  · exact .ok _

theorem Definition.onlyFaults_ofChars?
    (hs : ∀ c, s.getLast? = some c → Text.isSpace c = false) :
    OnlyFaults (Splits d s) (Definition.ofChars? d s) := by
  have hE : Blames d (· ∈ Token.lex d s) (Splits d s) := blames_splits hs
  have hclauses := Clauses.sound_ofDialect hE d
  have hraw : OnlyFaults (Splits d s) (rawStatement d s) := onlyFaults_rawStatement hs
  unfold Definition.ofChars?
  dsimp only
  split
  · refine (onlyFaults_run? (Sound.skip.bind fun _ => sound_create hE hclauses)).bind fun o => ?_
    cases o with
    | some o => exact .ok _
    | none => exact hraw.bind fun _ => .ok _
  · refine hraw.bind fun raw => ?_
    refine (onlyFaults_run? (Sound.skip.bind fun _ => sound_alter hE hclauses)).bind fun found => ?_
    cases found <;> exact .ok _
  · exact hraw.bind fun _ => .ok _
  · exact hraw.bind fun _ => .ok _
  · exact .ok _

theorem Object.onlyFaults_ofStatement? {statement : String}
    (hs : ∀ c, statement.toList.getLast? = some c → Text.isSpace c = false) :
    OnlyFaults (Splits d statement.toList) (Object.ofStatement? d statement) :=
  (Definition.onlyFaults_ofChars? hs).bind fun _ => .ok _

namespace Statement

variable {d : Dialect} {here : Spot} {δ : Delimiter} {r : Draft} {item : Item} {rest : Splitter}

def Item.IsTrimmed (item : Item) : Prop := ∃ s, item.text = String.ofList (Text.trim s)

theorem isTrimmed_of_finish (h : (finish here δ r).1 = some item) : item.IsTrimmed := by
  unfold finish at h
  split at h
  · cases h
  split at h
  · cases h
    exact ⟨_, rfl⟩
  split at h
  · cases h
    exact ⟨_, rfl⟩
  · cases h
    exact ⟨_, rfl⟩

theorem isTrimmed_of_accept {n : Nat} {piece : Piece}
    (h : accept here δ r n piece = .stop (some item) rest) : item.IsTrimmed := by
  cases piece with
  | delimiter =>
      rw [accept] at h
      split at h
      · split at h
        · cases h
          exact ⟨_, rfl⟩
        · cases h
      · cases h
  | blank | comment | directive | quoted | mark | word => cases h

theorem isTrimmed_of_turn (h : turn d here δ r = .stop (some item) rest) : item.IsTrimmed := by
  unfold turn at h
  split at h
  · injection h with h
    exact isTrimmed_of_finish h
  split at h
  · cases h
    exact ⟨_, rfl⟩
  · exact isTrimmed_of_accept h

theorem Reads.isTrimmed {found : Option Item} (h : Reads d here δ r found rest) :
    ∀ item, found = some item → item.IsTrimmed := by
  induction h with
  | stop h =>
      rintro item rfl
      exact isTrimmed_of_turn h
  | go _ _ ih => exact ih

theorem Splitter.Yields.isTrimmed {s last : Splitter} {items : List Item}
    (h : Splitter.Yields d s items last) : ∀ item ∈ items, item.IsTrimmed := by
  induction h with
  | done => exact fun _ h => absurd h List.not_mem_nil
  | item h _ ih =>
      exact List.forall_mem_cons.2 ⟨(Splitter.reads_iff_next.2 h).isTrimmed _ rfl, ih⟩

/-- No white space stands at the ends of a statement, or of what is shown of one that is left
open. -/
theorem isTrimmed_of_mem_split {script : String} (h : item ∈ split d script) : item.IsTrimmed :=
  (Splitter.yields_run d (.start script)).isTrimmed item h

theorem Item.IsTrimmed.last (h : item.IsTrimmed) :
    ∀ c, item.text.toList.getLast? = some c → Text.isSpace c = false := by
  obtain ⟨s, hs⟩ := h
  rw [hs, String.toList_ofList]
  exact fun _ => Text.not_isSpace_of_getLast?_trim

end Statement

def Script.Splits (d : Dialect) (scripts : List Script) (f : Fault) : Prop :=
  ∃ s ∈ scripts, ∃ item ∈ Statement.split d s.sql, SchemaDrift.Splits d item.text.toList f

namespace Finding

theorem onlyFaults_ofItem (label : String) {item : Statement.Item}
    (h : item.IsTrimmed) : OnlyFaults (Splits d item.text.toList) (ofItem d label item) := by
  cases item with
  | ok s => exact (Definition.onlyFaults_ofChars? h.last).bind fun _ => .ok _
  | error u => exact (onlyFaults_rawStatement h.last).bind fun _ => .ok _

theorem onlyFaults_ofItems (label : String) {items : List Statement.Item}
    (h : ∀ item ∈ items, item.IsTrimmed) :
    OnlyFaults (fun f => ∃ item ∈ items, Splits d item.text.toList f) (ofItems d label items) := by
  induction items with
  | nil => exact .ok _
  | cons item items ih =>
      obtain ⟨hitem, hitems⟩ := List.forall_mem_cons.1 h
      refine ((onlyFaults_ofItem label hitem).mono fun f hf =>
        ⟨item, List.mem_cons_self, hf⟩).bind fun found => ?_
      refine ((ih hitems).mono ?_).bind fun _ => .ok _
      rintro f ⟨item, hmem, hf⟩
      exact ⟨item, List.mem_cons_of_mem _ hmem, hf⟩

theorem onlyFaults_ofScripts (scripts : List Script) :
    OnlyFaults (Script.Splits d scripts) (ofScripts d scripts) := by
  induction scripts with
  | nil => exact .ok _
  | cons s scripts ih =>
      have htrimmed : ∀ item ∈ Statement.split d s.sql, item.IsTrimmed :=
        fun _ => Statement.isTrimmed_of_mem_split
      refine ((onlyFaults_ofItems s.label htrimmed).mono fun f hf =>
        ⟨s, List.mem_cons_self, hf⟩).bind fun found => ?_
      refine (ih.mono ?_).bind fun _ => .ok _
      rintro f ⟨s, hmem, hf⟩
      exact ⟨s, List.mem_cons_of_mem _ hmem, hf⟩

end Finding

theorem Model.onlyFaults_ofScripts (d : Dialect) (scripts : List Script) :
    OnlyFaults (Script.Splits d scripts) (ofScripts d scripts) :=
  (Finding.onlyFaults_ofScripts scripts).bind fun _ => .ok _

end SchemaDrift
