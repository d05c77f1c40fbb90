import SchemaDrift.Proofs.Pieces
import SchemaDrift.Proofs.Turn

namespace SchemaDrift.Statement

inductive Gap (d : Dialect) (δ : Delimiter) : List Char → List Char → Delimiter → Prop
  | blank {c : Char} {rest : List Char} (hc : Text.isBlank c = true) : Gap d δ [c] rest δ
  | comment {run rest : List Char} {sets : Option Delimiter} (h : Comment d run rest sets) :
      Gap d δ run rest (sets.getD δ)
  | directive {run rest : List Char} {sets : Option Delimiter} (h : Directive d run rest sets) :
      Gap d δ run rest (sets.getD δ)
  | delimiter {rest : List Char} : Gap d δ δ.toList rest δ

/-- Code read from `start` on, with `δ₀` in force. The text read holds a blank for each comment
and all else as it stands. -/
inductive Scan (d : Dialect) (start : Spot) (δ₀ : Delimiter) :
    List Char → Spot → Delimiter → Prop
  | start : Scan d start δ₀ [] start δ₀
  | comment {text run rest : List Char} {here : Spot} {δ : Delimiter} {sets : Option Delimiter}
      (s : Scan d start δ₀ text here δ) (h : here.ahead = run ++ rest)
      (hc : Comment d run rest sets) :
      Scan d start δ₀ (text ++ [' ']) (here.advance run.length) (sets.getD δ)
  | code {text run rest : List Char} {here : Spot} {δ : Delimiter}
      (s : Scan d start δ₀ text here δ) (h : here.ahead = run ++ rest)
      (hc : Code d δ here.behind run rest) :
      Scan d start δ₀ (text ++ run) (here.advance run.length) δ
  /-- `END IF` and its like are read as one. -/
  | closer {text word blanks closed rest : List Char} {here : Spot} {δ : Delimiter}
      (s : Scan d start δ₀ text here δ) (h : here.ahead = word ++ (blanks ++ (closed ++ rest)))
      (hc : Code d δ here.behind word (blanks ++ (closed ++ rest)))
      (hword : Text.sameWord word "END".toList = true)
      (hblanks : ∀ b ∈ blanks, Text.isBlank b = true)
      (hclosed : isOneOf closed ("CASE" :: innerBlocks) = true) :
      Scan d start δ₀ (text ++ (word ++ (blanks ++ closed)))
        (here.advance (word ++ (blanks ++ closed)).length) δ

inductive Span (d : Dialect) (start : Spot) (δ₀ : Delimiter) : Item → Spot → Delimiter → Prop
  | statement {text : List Char} {stop : Spot} {δ : Delimiter} (s : Scan d start δ₀ text stop δ)
      (hmoved : stop.ahead.length < start.ahead.length)
      (hstop : stop.ahead = [] ∨ δ.toList <+: stop.ahead) :
      Span d start δ₀ (.ok ⟨String.ofList (Text.trim text), start.offset, start.line⟩) stop δ
  | block {text : List Char} {stop : Spot} {δ : Delimiter} (s : Scan d start δ₀ text stop δ)
      (hmoved : stop.ahead.length < start.ahead.length)
      (hstop : stop.ahead = [] ∨ δ.toList <+: stop.ahead) :
      Span d start δ₀ (.error ⟨.block, start.offset, start.line,
        String.ofList (Text.trim (start.upTo stop))⟩) stop δ
  | unclosed {text : List Char} {here : Spot} {δ : Delimiter} {what : Unclosed}
      (s : Scan d start δ₀ text here δ) (h : Unterminated d δ here.behind here.ahead what) :
      Span d start δ₀ (.error ⟨what, start.offset, start.line,
        String.ofList (Text.trim (start.upTo here.toEnd))⟩) here.toEnd δ

structure Portion where
  run : List Char
  item : Option Item

inductive Lay (d : Dialect) : Spot → Delimiter → List Portion → Spot → Delimiter → Prop
  | nil {here : Spot} {δ : Delimiter} : Lay d here δ [] here δ
  | gap {here last : Spot} {δ δ' δ'' : Delimiter} {run rest : List Char} {ps : List Portion}
      (h : here.ahead = run ++ rest) (g : Gap d δ run rest δ')
      (l : Lay d (here.advance run.length) δ' ps last δ'') :
      Lay d here δ (⟨run, none⟩ :: ps) last δ''
  | item {here stop last : Spot} {δ δ' δ'' : Delimiter} {item : Item} {ps : List Portion}
      (s : Span d here δ item stop δ') (l : Lay d stop δ' ps last δ'') :
      Lay d here δ (⟨here.upTo stop, some item⟩ :: ps) last δ''

variable {d : Dialect} {start here stop last : Spot} {δ₀ δ δ' : Delimiter} {ps qs : List Portion}

theorem Gap.ne_nil {run rest : List Char} (h : Gap d δ run rest δ') : run ≠ [] := by
  cases h with
  | blank hc => exact List.cons_ne_nil _ _
  | comment h => cases h <;> exact List.cons_ne_nil _ _
  | delimiter => exact List.cons_ne_nil _ _
  | directive h =>
      cases h with
      | @delimiter word tail _ _ hword =>
          intro hnil
          rw [(List.append_eq_nil_iff.1 hnil).1] at hword
          exact absurd hword (by decide)

theorem Scan.exists_advance {text : List Char} (h : Scan d start δ₀ text here δ) :
    ∃ n, here = start.advance n := by
  induction h with
  | start => exact ⟨0, start.advance_zero⟩
  | comment s h hc ih | code s h hc ih | closer s h hc hword hblanks hclosed ih =>
      obtain ⟨n, rfl⟩ := ih
      exact ⟨_, start.advance_advance n _⟩

namespace Span

variable {item : Item}

theorem exists_advance (h : Span d start δ₀ item stop δ) : ∃ n, stop = start.advance n := by
  cases h with
  | statement s | block s => exact s.exists_advance
  | unclosed s =>
      obtain ⟨n, rfl⟩ := s.exists_advance
      exact ⟨start.ahead.length, start.toEnd_advance n⟩

theorem length_lt (h : Span d start δ₀ item stop δ) : stop.ahead.length < start.ahead.length := by
  cases h with
  | statement s hmoved | block s hmoved => exact hmoved
  | unclosed s h =>
      obtain ⟨n, rfl⟩ := s.exists_advance
      have hlen := List.length_pos_iff.2 h.ne_nil
      rw [Spot.ahead_advance, List.length_drop] at hlen
      rw [Spot.ahead_toEnd, List.length_nil]
      omega

theorem upTo_append (h : Span d start δ₀ item stop δ) :
    start.ahead = start.upTo stop ++ stop.ahead := by
  obtain ⟨n, rfl⟩ := h.exists_advance
  rw [Spot.upTo_advance, Spot.ahead_advance, List.take_append_drop]

theorem upTo_ne_nil (h : Span d start δ₀ item stop δ) : start.upTo stop ≠ [] := by
  intro hnil
  have hlt := h.length_lt
  rw [h.upTo_append, hnil] at hlt
  exact absurd hlt (Nat.lt_irrefl _)

end Span

def Item.offset : Item → Nat
  | .ok s => s.offset
  | .error u => u.offset

def Item.line : Item → Nat
  | .ok s => s.line
  | .error u => u.line

def Portion.span? (p : Portion) : Option (Nat × Nat) :=
  p.item.map (fun i => (Item.offset i, Item.offset i + Text.byteSize p.run))

theorem Span.offset_eq {item : Item} (h : Span d start δ₀ item stop δ) :
    Item.offset item = start.offset ∧ Item.line item = start.line := by
  cases h <;> exact ⟨rfl, rfl⟩

theorem Lay.append (h : Lay d here δ ps stop δ₀) (t : Lay d stop δ₀ qs last δ') :
    Lay d here δ (ps ++ qs) last δ' := by
  induction h with
  | nil => exact t
  | gap h g l ih => exact .gap h g (ih t)
  | item s l ih => exact .item s (ih t)

namespace Lay

theorem ahead_eq (h : Lay d here δ ps last δ') :
    here.ahead = ps.flatMap Portion.run ++ last.ahead := by
  induction h with
  | nil => rfl
  | gap h g l ih =>
      rw [Spot.ahead_advance, h, List.drop_left] at ih
      rw [h, ih, List.flatMap_cons, List.append_assoc]
  | item s l ih => rw [s.upTo_append, ih, List.flatMap_cons, List.append_assoc]

theorem exists_advance (h : Lay d here δ ps last δ') : ∃ n, last = here.advance n := by
  induction h with
  | nil => exact ⟨0, rfl⟩
  | gap h g l ih =>
      obtain ⟨n, rfl⟩ := ih
      exact ⟨_, Spot.advance_advance _ _ n⟩
  | item s l ih =>
      obtain ⟨m, rfl⟩ := s.exists_advance
      obtain ⟨n, rfl⟩ := ih
      exact ⟨_, Spot.advance_advance _ m n⟩

theorem run_ne_nil (h : Lay d here δ ps last δ') : ∀ p ∈ ps, p.run ≠ [] := by
  induction h with
  | nil =>
      intro p hp
      cases hp
  | gap h g l ih => exact List.forall_mem_cons.2 ⟨g.ne_nil, ih⟩
  | item s l ih => exact List.forall_mem_cons.2 ⟨s.upTo_ne_nil, ih⟩

theorem length_lt (h : Lay d here δ ps last δ') (hps : ps ≠ []) :
    last.ahead.length < here.ahead.length := by
  obtain ⟨p, ps, rfl⟩ := List.exists_cons_of_ne_nil hps
  have hp := List.length_pos_iff.2 (h.run_ne_nil p List.mem_cons_self)
  rw [h.ahead_eq, List.flatMap_cons, List.length_append, List.length_append]
  omega

/-- The items tell where they begin. -/
theorem position (h : Lay d here δ ps last δ') {before after : List Portion} {p : Portion}
    (hps : ps = before ++ p :: after) {item : Item} (hi : p.item = some item) :
    Item.offset item = here.offset + Text.byteSize (before.flatMap Portion.run) ∧
      Item.line item = here.line + Text.newlines (before.flatMap Portion.run) := by
  induction h generalizing before with
  | nil => simp at hps
  | @gap here _ _ _ _ run rest ps h g l ih =>
      cases before with
      | nil =>
          cases hps
          cases hi
      | cons q before =>
          obtain ⟨rfl, rfl⟩ := List.cons.inj hps
          obtain ⟨hoffset, hline⟩ := ih rfl
          rw [hoffset, hline, Spot.offset_advance, Spot.line_advance, h, List.take_left]
          simp [Nat.add_assoc]
  | @item here stop _ _ _ _ i ps s l ih =>
      cases before with
      | nil =>
          cases hps
          cases hi
          exact s.offset_eq
      | cons q before =>
          obtain ⟨rfl, rfl⟩ := List.cons.inj hps
          obtain ⟨hoffset, hline⟩ := ih rfl
          obtain ⟨n, rfl⟩ := s.exists_advance
          rw [hoffset, hline, Spot.offset_advance, Spot.line_advance, Spot.upTo_advance]
          simp [Nat.add_assoc]

theorem spans (h : Lay d here δ ps last δ') :
    (ps.filterMap Portion.span?).Pairwise (fun s t => s.2 ≤ t.1) ∧
      ∀ s ∈ ps.filterMap Portion.span?, here.offset ≤ s.1 ∧ s.1 < s.2 := by
  induction h with
  | nil => simp
  | @gap here _ _ _ _ run rest ps h g l ih =>
      refine ⟨ih.1, ?_⟩
      intro s hs
      have hle := (ih.2 s hs).1
      rw [Spot.offset_advance] at hle
      exact ⟨by omega, (ih.2 s hs).2⟩
  | @item here stop _ _ _ _ i ps s l ih =>
      obtain ⟨n, rfl⟩ := s.exists_advance
      have hpos := Text.byteSize_pos s.upTo_ne_nil
      have hspan : Portion.span? ⟨here.upTo (here.advance n), some i⟩ =
          some (here.offset, (here.advance n).offset) := by
        rw [Portion.span?, Option.map_some, s.offset_eq.1, Spot.offset_advance, Spot.upTo_advance]
      rw [Spot.upTo_advance] at hpos
      rw [List.filterMap_cons_some hspan, List.pairwise_cons, List.forall_mem_cons]
      have hstep := Spot.offset_advance here n
      refine ⟨⟨fun t ht => (ih.2 t ht).1, ih.1⟩, ⟨Nat.le_refl _, by omega⟩, ?_⟩
      intro t ht
      exact ⟨by have := (ih.2 t ht).1; omega, (ih.2 t ht).2⟩

end Lay

end SchemaDrift.Statement
