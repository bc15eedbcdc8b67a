/-
  Trying a type on two rows of the same faces. A try that fails puts the tokens back that it has
  read, with its double brackets taken apart, so the rows agree behind it only if the same ones were
  taken apart. They were: no double bracket is read whole, and what is left agrees.
-/
import HeaderBridge.Proofs.Agreement.Rules
import HeaderBridge.Proofs.Types.Speculation

namespace HeaderBridge

open Bare (bare)

/-! ## Faces of rows whose brackets are taken apart -/

/-- What the grammar sees of a row when all its double brackets are taken apart. -/
def halvedFaces (ts : List Token) : List (TokenKind × String) :=
  ts.flatMap fun t => if t.kind = .shiftRight then [(.greater, ">"), (.greater, ">")] else [t.face]

theorem halvedFaces_append (ts us : List Token) :
    halvedFaces (ts ++ us) = halvedFaces ts ++ halvedFaces us := List.flatMap_append

theorem halvedFaces_of_whole {ts : List Token} (h : ∀ t ∈ ts, t.kind ≠ .shiftRight) :
    halvedFaces ts = ts.map Token.face := by
  induction ts with
  | nil => rfl
  | cons t ts ih =>
    obtain ⟨ht, hts⟩ := List.forall_mem_cons.mp h
    have hnext := ih hts
    unfold halvedFaces at hnext ⊢
    rw [List.flatMap_cons, if_neg ht, hnext]
    rfl

theorem halvedFaces_congr {ts us : List Token} (h : ts.map Token.face = us.map Token.face) :
    halvedFaces ts = halvedFaces us := by
  have hfaces (ts : List Token) : halvedFaces ts = (ts.map Token.face).flatMap fun face =>
      if face.1 = .shiftRight then [(.greater, ">"), (.greater, ">")] else [face] := by
    rw [List.flatMap_map]
    rfl
  rw [hfaces, hfaces, h]

theorem Halved.halvedFaces_eq {ts us : List Token} (h : Halved ts us) :
    halvedFaces ts = halvedFaces us := by
  induction h with
  | nil => rfl
  | keep t _ ih =>
    unfold halvedFaces at ih ⊢
    rw [List.flatMap_cons, List.flatMap_cons, ih]
  | @halve _ _ t a b hv _ ih =>
    have ha : a.face = (.greater, ">") := by rw [Token.face, hv.first_kind, hv.first_text]
    have hb : b.face = (.greater, ">") := by rw [Token.face, hv.second_kind, hv.second_text]
    unfold halvedFaces at ih ⊢
    rw [List.flatMap_cons, List.flatMap_cons, List.flatMap_cons, ih, if_pos hv.kind,
      if_neg (by rw [hv.first_kind]; decide), if_neg (by rw [hv.second_kind]; decide), ha, hb]
    rfl

/-- Rows of the same faces, in which brackets were taken apart in front of some place, agree there
    in front of the place if they agree behind it. -/
theorem faces_front_of_halved {ts front rest us front' rest' : List Token}
    (hfaces : ts.map Token.face = us.map Token.face)
    (hts : Halved ts (front ++ rest)) (hus : Halved us (front' ++ rest'))
    (hfront : ∀ t ∈ front, t.kind ≠ .shiftRight) (hfront' : ∀ t ∈ front', t.kind ≠ .shiftRight)
    (hrest : rest.map Token.face = rest'.map Token.face) :
    front.map Token.face = front'.map Token.face := by
  have hall : halvedFaces (front ++ rest) = halvedFaces (front' ++ rest') := by
    rw [← hts.halvedFaces_eq, ← hus.halvedFaces_eq, halvedFaces_congr hfaces]
  rw [halvedFaces_append, halvedFaces_append, halvedFaces_congr hrest] at hall
  have hsame := List.append_cancel_right hall
  rwa [halvedFaces_of_whole hfront, halvedFaces_of_whole hfront'] at hsame

/-- A look ahead that may pass a row may pass it when brackets are taken apart, since it has none. -/
theorem RanOut.halved {tail : Option (List Token)} {ts us : List Token} (h : RanOut tail ts)
    (hhalved : Halved ts us) : RanOut tail us := by
  refine ⟨h.1, ?_⟩
  have hts := h.2
  clear h
  induction hhalved with
  | nil => exact hts
  | keep t _ ih =>
    obtain ⟨ht, hts⟩ := List.forall_mem_cons.mp hts
    exact List.forall_mem_cons.mpr ⟨ht, ih hts⟩
  | halve hv _ _ =>
    have hend := hts _ List.mem_cons_self (by rw [hv.kind]; rfl)
    rw [hv.kind] at hend
    cases hend

theorem Keeps.of_halved {s : ReadState} {ts : List Token} (h : Halved s.rest ts) :
    Keeps s { s with rest := ts } := by
  refine ⟨fun tail hout => hout.halved h, fun hnil => ?_, Nat.le_refl _, rfl⟩
  rw [hnil] at h
  cases h
  rfl

/-! ## What a tried type reads -/

/-- Tokens were read, none of them a double bracket, and some of these were taken apart. -/
def ReadState.Walks (s t : ReadState) : Prop :=
  ∃ front rest, Halved s.rest (front ++ rest) ∧ (∀ u ∈ front, u.kind ≠ .shiftRight) ∧
    t = s.past front rest

theorem ReadState.tracks_walks : Tracks ReadState.Walks where
  refl s := ⟨[], s.rest, Halved.refl s.rest, fun _ h => (List.not_mem_nil h).elim, rfl⟩
  trans := by
    rintro s _ _ ⟨front, rest, hr, hfront, rfl⟩ ⟨front', rest', hr', hfront', rfl⟩
    refine ⟨front ++ front', rest', ?_, fun u hu => ?_, past_past⟩
    · rw [List.append_assoc]
      exact hr.trans ((Halved.refl front).append hr')
    · exact (List.mem_append.mp hu).elim (hfront u) (hfront' u)
  speculating := by
    rintro s _ ⟨front, rest, _, _, rfl⟩
    rfl
  advance := by
    intro s hc
    cases hr : s.rest with
    | nil =>
      rw [advance_of_nil hr]
      exact ⟨[], s.rest, Halved.refl s.rest, fun _ h => (List.not_mem_nil h).elim, rfl⟩
    | cons t rest =>
      rw [current_of_cons hr] at hc
      refine ⟨[t], rest, by rw [hr]; exact Halved.refl _, fun u hu => ?_, advance_of_cons hr⟩
      rwa [List.mem_singleton.mp hu]
  halve := by
    intro s t a b rest hr hv
    refine ⟨[], a :: b :: rest, ?_, fun _ h => (List.not_mem_nil h).elim, rfl⟩
    rw [hr]
    exact .halve hv (Halved.refl rest)

namespace Grammar

open Rule

theorem typeName_tracksAt {R : ReadState → ReadState → Prop} (hR : Tracks R) {s : ReadState}
    (hs : s.speculating = true) : TracksAt R typeName s := by
  refine ends_typeName ((qualifiers_tracksAt hR s).mono (fun _ t h => ?_) fun _ _ h => h)
  exact (objcType_tracksAt hR _ t ((hR.speculating h).trans hs)).mono
    (fun _ _ h' => hR.trans h h') fun _ _ h' => hR.trans h h'

theorem IsTried.tracksAt {R : ReadState → ReadState → Prop} (hR : Tracks R) {r : Rule ObjcType}
    (hr : IsTried r) {s : ReadState} (hs : s.speculating = true) (hc : s.current = .leftParen) :
    TracksAt R r s := by
  have hopen : TracksAt R advance s := .advance hR (by rw [hc]; decide)
  have hclose (t : ReadState) : TracksAt R (expect .rightParen .parenthesisAfterType) t :=
    .expect hR (by decide) _ t
  rcases hr with rfl | rfl
  · refine hopen.bind hR fun _ t h => ?_
    refine (typeName_tracksAt hR ((hR.speculating h).trans hs)).bind hR fun name u _ => ?_
    refine (hclose u).bind hR fun _ v _ => .state (.ite (fun _ => .pure hR _ v) fun _ => ?_)
    exact .failHere hR _ v
  · refine hopen.bind hR fun _ t h => ?_
    refine (typeName_tracksAt hR ((hR.speculating h).trans hs)).bind hR fun name u _ => ?_
    exact (hclose u).bind hR fun _ v _ => .pure hR _ v

/-! ## Trying a type -/

open Rule.AgreeAt

/-- A type behind an opening parenthesis, and what is made of it. -/
theorem parenthesized_agreeAt {last : TypeName → Rule ObjcType}
    (hlast : ∀ name name' s s', bare name = bare name' →
      AgreeAt none (last name) (last name') s s') (s s' : ReadState) :
    AgreeAt none (advance >>= fun _ => typeName >>= last) (advance >>= fun _ => typeName >>= last)
      s s' :=
  (AgreeAt.advance s s').bind fun _ _ s₁ s₁' _ =>
    (typeName_agreeAt s₁ s₁').bind fun _ _ s₂ s₂' hname => hlast _ _ s₂ s₂' hname

theorem IsTried.agreeAt {r : Rule ObjcType} (hr : IsTried r) (s s' : ReadState) :
    AgreeAt none r r s s' := by
  rcases hr with rfl | rfl
  · refine parenthesized_agreeAt (fun name name' s₁ s₁' hname => ?_) s s'
    have htype := TypeName.type_eq_of_bare hname
    refine (AgreeAt.expect _ _ s₁ s₁').bind fun _ _ s₂ s₂' _ => .state (.ite ?_ (fun _ => ?_) ?_)
    · intro halike hsees
      rw [halike.current_eq hsees, htype]
    · exact .pure (congrArg bare htype) s₂ s₂'
    · exact fun _ => .failHere _ s₂ s₂'
  · refine parenthesized_agreeAt (fun name name' s₁ s₁' hname => ?_) s s'
    have htype := TypeName.type_eq_of_bare hname
    exact (AgreeAt.expect _ _ s₁ s₁').bind fun _ _ s₂ s₂' _ => .pure (congrArg bare htype) s₂ s₂'

variable {s s' : ReadState}

/-- A try that fails comes back to the row, in which brackets were taken apart. -/
theorem IsTried.attempt_failed {r : Rule ObjcType} (hr : IsTried r) (hc : s.current = .leftParen)
    {e : SyntaxError} {t : ReadState} (h : r { s with speculating := true } = .failed e t) :
    ∃ front, Halved s.rest (front ++ t.rest) ∧ (∀ u ∈ front, u.kind ≠ .shiftRight) ∧
      attempt r s = .done none { s with rest := front ++ t.rest } := by
  have hwalks := hr.tracksAt ReadState.tracks_walks (s := { s with speculating := true }) rfl hc
  obtain ⟨front, rest, hrow, hfront, rfl⟩ := hwalks.of_failed h
  exact ⟨front, hrow, hfront, Grammar.attempt_of_failed h⟩

theorem IsTried.keeping_attempt {r : Rule ObjcType} (hr : IsTried r)
    (hc : s.current = .leftParen) : Keeping (attempt r) s := by
  have hself := (hr.agreeAt { s with speculating := true } s).keeps
  unfold Keeping Ends at hself ⊢
  cases hrun : r { s with speculating := true } with
  | done a t =>
    rw [attempt_of_done hrun]
    rw [hrun] at hself
    exact ⟨hself.rest, hself.nil, hself.errors, rfl⟩
  | failed e t =>
    obtain ⟨front, hrow, _, hattempt⟩ := hr.attempt_failed hc hrun
    rw [hattempt]
    exact .of_halved hrow
  | broken fault =>
    rw [attempt_of_broken hrun]
    trivial

/-- A try comes to the same on both sides, also in what it leaves of the rows. -/
theorem IsTried.attempt_agreeAt {r : Rule ObjcType} (hr : IsTried r) (hc : s.current = .leftParen) :
    AgreeAt none (attempt r) (attempt r) s s' := by
  refine ⟨hr.keeping_attempt hc, fun halike hsees => ?_⟩
  have hc' : s'.current = .leftParen := (halike.current_eq hsees).symm.trans hc
  have hagreed := (hr.agreeAt { s with speculating := true } { s' with speculating := true }).agreed
    ⟨halike.facing, rfl, halike.inOptional⟩ hsees
  generalize hrun : r { s with speculating := true } = o at hagreed
  generalize hrun' : r { s' with speculating := true } = o' at hagreed
  cases hagreed with
  | broken fault o' =>
    rw [attempt_of_broken hrun]
    exact .broken fault _
  | brokenToo o fault =>
    rw [attempt_of_broken hrun']
    exact .brokenToo _ fault
  | doneOut _ _ out => exact absurd out (not_ranOut_none _)
  | failedOut _ _ out => exact absurd out (not_ranOut_none _)
  | @done a a' t t' values alike gain =>
    rw [attempt_of_done hrun, attempt_of_done hrun']
    refine .done (congrArg some values) ?_ ⟨gain.nodes, gain.errors⟩
    exact ⟨alike.facing, halike.speculating, alike.inOptional⟩
  | @failed e e' t t' _ _ alike _ =>
    obtain ⟨front, hrow, hfront, hattempt⟩ := hr.attempt_failed hc hrun
    obtain ⟨front', hrow', hfront', hattempt'⟩ := hr.attempt_failed hc' hrun'
    rw [hattempt, hattempt']
    -- What is unread again has the same faces, since what is behind it has.
    have hfaces := faces_front_of_halved halike.facing hrow hrow' hfront hfront' alike.facing
    refine .done rfl ⟨?_, halike.speculating, halike.inOptional⟩ (.of_eq rfl rfl rfl rfl)
    show (front ++ t.rest).map Token.face = (front' ++ t'.rest).map Token.face
    rw [List.map_append, List.map_append, hfaces,
      show t.rest.map Token.face = t'.rest.map Token.face from alike.facing]

end Grammar

end HeaderBridge
