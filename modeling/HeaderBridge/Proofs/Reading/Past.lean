/-
  Reading as a move along the tokens. `s.past front rest` is the state that has read the tokens
  `front` and stands before `rest`. Every way of reading ahead is such a move with
  `s.rest = front ++ rest`, and going back undoes it.
-/
import HeaderBridge.Objc.Rule

namespace HeaderBridge.ReadState

/-- The state behind some more tokens, in front of others. -/
def past (s : ReadState) (front rest : List Token) : ReadState :=
  { s with passed := front.reverse ++ s.passed, rest }

variable {s s' : ReadState} {front rest : List Token}

@[simp] theorem past_passed : (s.past front rest).passed = front.reverse ++ s.passed := rfl
@[simp] theorem past_rest : (s.past front rest).rest = rest := rfl
@[simp] theorem past_nodes : (s.past front rest).nodes = s.nodes := rfl
@[simp] theorem past_errors : (s.past front rest).errors = s.errors := rfl
@[simp] theorem past_log : (s.past front rest).log = s.log := rfl
@[simp] theorem past_sourceLength : (s.past front rest).sourceLength = s.sourceLength := rfl
@[simp] theorem past_speculating : (s.past front rest).speculating = s.speculating := rfl
@[simp] theorem past_inOptional : (s.past front rest).inOptional = s.inOptional := rfl
@[simp] theorem past_current : (s.past front rest).current = kindOf rest := rfl
@[simp] theorem past_weight : (s.past front rest).weight = weightOf rest := rfl

@[simp] theorem past_position : (s.past front rest).position = front.length + s.position := by
  simp [position]

@[simp] theorem past_past {front' rest' : List Token} :
    (s.past front rest).past front' rest' = s.past (front ++ front') rest' := by
  simp [past]

theorem past_nil : s.past [] s.rest = s := rfl

@[simp] theorem kindOf_cons {t : Token} {ts : List Token} : kindOf (t :: ts) = t.kind := rfl

@[simp] theorem kindOf_nil : kindOf [] = .endOfFile := rfl

/-! ## Single tokens -/

theorem advance_of_cons {t : Token} (h : s.rest = t :: rest) : s.advance = s.past [t] rest := by
  unfold advance
  rw [h]
  rfl

theorem advance_of_nil (h : s.rest = []) : s.advance = s := by
  unfold advance
  rw [h]

theorem rest_advance (s : ReadState) : s.advance.rest = s.rest.drop 1 := by
  cases h : s.rest with
  | nil => rw [advance_of_nil h, h]; rfl
  | cons t rest => rw [advance_of_cons h]; rfl

theorem current_of_cons {t : Token} (h : s.rest = t :: rest) : s.current = t.kind := by
  unfold current
  rw [h, kindOf_cons]

theorem currentText_of_cons {t : Token} (h : s.rest = t :: rest) : s.currentText = t.text := by
  unfold currentText
  rw [h]

theorem currentSpan_of_cons {t : Token} (h : s.rest = t :: rest) : s.currentSpan = t.span := by
  unfold currentSpan
  rw [h]

/-- A kind that only tokens have is the kind of a token. -/
theorem exists_cons_of_current {kind : TokenKind} (h : s.current = kind)
    (hk : kind ≠ .endOfFile) : ∃ t rest, s.rest = t :: rest ∧ t.kind = kind := by
  cases hr : s.rest with
  | nil => exact absurd (by simpa [current, hr] using h.symm) hk
  | cons t rest => exact ⟨t, rest, rfl, by simpa [current, hr] using h⟩

/-! ## Many tokens -/

theorem skipGroup_move_cons (opening closing : TokenKind) (s : ReadState) (depth : Nat)
    (passed : List Token) (t : Token) (ts : List Token) :
    skipGroup.move opening closing s depth passed (t :: ts) =
      if t.kind = opening then skipGroup.move opening closing s (depth + 1) (t :: passed) ts
      else if t.kind = closing then
        if depth ≤ 1 then { s with passed := t :: passed, rest := ts }
        else skipGroup.move opening closing s (depth - 1) (t :: passed) ts
      else skipGroup.move opening closing s depth (t :: passed) ts := rfl

/-- From the first state to the second some tokens were read and nothing else was done. -/
def Reads (s s' : ReadState) : Prop :=
  ∃ front rest, s.rest = front ++ rest ∧ s' = s.past front rest

namespace Reads

theorem refl (s : ReadState) : Reads s s := ⟨[], s.rest, rfl, rfl⟩

theorem trans {s'' : ReadState} (h : Reads s s') (h' : Reads s' s'') : Reads s s'' := by
  obtain ⟨front, rest, hr, rfl⟩ := h
  obtain ⟨front', rest', hr', rfl⟩ := h'
  rw [past_rest] at hr'
  exact ⟨front ++ front', rest', by rw [hr, hr', List.append_assoc], past_past⟩

theorem advance (s : ReadState) : Reads s s.advance := by
  cases h : s.rest with
  | nil => rw [advance_of_nil h]; exact refl s
  | cons t rest => exact ⟨[t], rest, h, advance_of_cons h⟩

theorem foldl_advance {α : Type} (words : List α) (s : ReadState) :
    Reads s (words.foldl (fun s _ => s.advance) s) := by
  induction words generalizing s with
  | nil => exact refl s
  | cons w words ih => exact (advance s).trans (ih s.advance)

/-- Where tokens are passed over while a test allows it, the test holds at each of them and not
    behind them. -/
theorem readWhile_spec (go : List Token → Bool) (s : ReadState) :
    ∃ front rest, s.rest = front ++ rest ∧ s.readWhile go = s.past front rest ∧
      (∀ before t after, front = before ++ t :: after → go (t :: after ++ rest) = true) ∧
      (rest = [] ∨ go rest = false) := by
  have key : ∀ ts passed, ∃ front rest, ts = front ++ rest ∧
      readWhile.move go s passed ts = { s with passed := front.reverse ++ passed, rest } ∧
      (∀ before t after, front = before ++ t :: after → go (t :: after ++ rest) = true) ∧
      (rest = [] ∨ go rest = false) := by
    intro ts
    induction ts with
    | nil => intro passed; exact ⟨[], [], rfl, rfl, by simp, Or.inl rfl⟩
    | cons t ts ih =>
      intro passed
      unfold readWhile.move
      by_cases hgo : go (t :: ts) = true
      · obtain ⟨front, rest, rfl, hm, hf, hr⟩ := ih (t :: passed)
        refine ⟨t :: front, rest, rfl, by rw [if_pos hgo, hm]; simp, ?_, hr⟩
        intro before u after he
        cases before with
        | nil => cases he; exact hgo
        | cons _ before => cases he; exact hf before u after rfl
      · exact ⟨[], t :: ts, rfl, by rw [if_neg hgo]; rfl, by simp,
          Or.inr (Bool.eq_false_iff.mpr hgo)⟩
  exact key s.rest s.passed

theorem readWhile (go : List Token → Bool) (s : ReadState) : Reads s (s.readWhile go) := by
  obtain ⟨front, rest, hr, he, _, _⟩ := readWhile_spec go s
  exact ⟨front, rest, hr, he⟩

theorem skipUntil (stop : TokenKind → Bool) (s : ReadState) : Reads s (s.skipUntil stop) :=
  readWhile _ s

/-- Tokens are moved, whatever their number and however many brackets are open. -/
theorem exists_skipGroup_move (opening closing : TokenKind) (s : ReadState) (ts : List Token)
    (depth : Nat) (passed : List Token) : ∃ front rest, ts = front ++ rest ∧
      skipGroup.move opening closing s depth passed ts =
        { s with passed := front.reverse ++ passed, rest } := by
  induction ts generalizing depth passed with
  | nil => exact ⟨[], [], rfl, rfl⟩
  | cons t ts ih =>
    have further : ∀ depth', ∃ front rest, t :: ts = front ++ rest ∧
        skipGroup.move opening closing s depth' (t :: passed) ts =
          { s with passed := front.reverse ++ passed, rest } := by
      intro depth'
      obtain ⟨front, rest, rfl, hm⟩ := ih depth' (t :: passed)
      exact ⟨t :: front, rest, rfl, by rw [hm]; simp⟩
    rw [skipGroup_move_cons]
    split
    · exact further _
    · split
      · split
        · exact ⟨[t], ts, rfl, rfl⟩
        · exact further _
      · exact further _

theorem skipGroup (opening closing : TokenKind) (s : ReadState) :
    Reads s (s.skipGroup opening closing) :=
  exists_skipGroup_move opening closing s s.rest 0 s.passed

end Reads

/-- These tokens were read, and nothing else was done. -/
def HasRead (s : ReadState) (front : List Token) (s' : ReadState) : Prop :=
  ∃ rest, s.rest = front ++ rest ∧ s' = s.past front rest

namespace HasRead

variable {s'' : ReadState}

theorem reads {front : List Token} (h : HasRead s front s') : s.Reads s' := by
  obtain ⟨rest, hr, rfl⟩ := h
  exact ⟨front, rest, hr, rfl⟩

theorem refl (s : ReadState) : HasRead s [] s := ⟨s.rest, rfl, rfl⟩

theorem trans {front front' : List Token} (h : HasRead s front s')
    (h' : HasRead s' front' s'') : HasRead s (front ++ front') s'' := by
  obtain ⟨rest, hr, rfl⟩ := h
  obtain ⟨rest', hr', rfl⟩ := h'
  rw [past_rest] at hr'
  exact ⟨rest', by rw [hr, hr', List.append_assoc], past_past⟩

theorem rest_eq {front : List Token} (h : HasRead s front s') :
    s.rest = front ++ s'.rest := by
  obtain ⟨rest, hr, rfl⟩ := h
  exact hr

theorem speculating {front : List Token} (h : HasRead s front s') :
    s'.speculating = s.speculating := by
  obtain ⟨rest, _, rfl⟩ := h
  rfl

theorem advance {t : Token} {rest : List Token} (hr : s.rest = t :: rest) :
    HasRead s [t] s.advance :=
  ⟨rest, hr, advance_of_cons hr⟩

/-- A token of a kind is read, if it is the current one. -/
theorem exists_advance {kind : TokenKind} (hc : s.current = kind)
    (hk : kind ≠ .endOfFile) : ∃ t, t.kind = kind ∧ HasRead s [t] s.advance := by
  obtain ⟨t, rest, hr, ht⟩ := exists_cons_of_current hc hk
  exact ⟨t, ht, .advance hr⟩

end HasRead

/-- Passing over tokens ends behind those at which the test holds, if it fails behind them. -/
theorem readWhile_of_suffixes {go : List Token → Bool} (h : s.rest = front ++ rest)
    (hfront : ∀ before t after, front = before ++ t :: after → go (t :: after ++ rest) = true)
    (hrest : rest = [] ∨ go rest = false) : s.readWhile go = s.past front rest := by
  have key : ∀ front, (∀ before t after, front = before ++ t :: after →
      go (t :: after ++ rest) = true) → ∀ passed, readWhile.move go s passed (front ++ rest) =
        { s with passed := front.reverse ++ passed, rest } := by
    intro front
    induction front with
    | nil =>
      intro _ passed
      cases rest with
      | nil => rfl
      | cons t rest =>
        have hgo : go (t :: rest) = false := hrest.resolve_left (List.cons_ne_nil t rest)
        rw [List.nil_append]
        unfold readWhile.move
        rw [if_neg (by rw [hgo]; exact Bool.false_ne_true)]
        rfl
    | cons t front ih =>
      intro hfront passed
      rw [List.cons_append]
      unfold readWhile.move
      rw [if_pos (show go (t :: (front ++ rest)) = true from hfront [] t front rfl),
        ih fun before u after hu => hfront (t :: before) u after (congrArg (t :: ·) hu)]
      simp
  unfold readWhile
  rw [h]
  exact key front hfront s.passed

/-- The same for a test of the first token alone. -/
theorem readWhile_of_append {go : List Token → Bool} (h : s.rest = front ++ rest)
    (hfront : ∀ t ∈ front, ∀ ts, go (t :: ts) = true) (hrest : rest = [] ∨ go rest = false) :
    s.readWhile go = s.past front rest :=
  readWhile_of_suffixes h (fun before t after hf => hfront t (by rw [hf]; simp) _) hrest

/-! ## Going back -/

/-- Going back to where the first state stood unreads what was read since. -/
theorem backTo_of_passed (h : s'.passed = front.reverse ++ s.passed) :
    s'.backTo s.position = { s' with passed := s.passed, rest := front ++ s'.rest } := by
  have hn : s'.passed.length - s.position = front.reverse.length := by
    rw [h]
    simp [position]
  unfold backTo
  rw [hn, h, List.take_left, List.drop_left]
  simp only [List.reverse_reverse]

end HeaderBridge.ReadState
