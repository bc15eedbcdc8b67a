/-
  What the report on histories tells. A report that leaves nothing out has a heading for each file
  and each type and behind it every entry of every history, in the order of the plan
  (`Plan.items`). The report of a run is that report but for the initializers, which are passed
  over although each of them has an entry (`report_complete`). Two things carry this: the lines of a
  history are those of its entries (`History.reports`), however many lines an entry has, and a plan
  that is made of headers never has a function outside its types (`Plan.FromHeaders`), so that it
  does not matter that the report passes over those as well.
-/
import HeaderBridge.Proofs.Recovery.Insertion
import HeaderBridge.Proofs.Rerun.Again

namespace HeaderBridge

/-! ## Lines -/

theorem linesFrom_append (reversed front back : List Char) :
    linesFrom reversed (front ++ '\n' :: back) =
      linesFrom reversed (front ++ ['\n']) ++ linesFrom [] back := by
  induction front generalizing reversed with
  | nil => rfl
  | cons c front ih =>
    rw [List.cons_append, List.cons_append, linesFrom, linesFrom]
    by_cases hc : c = '\n'
    · rw [if_pos hc, if_pos hc, ih, List.cons_append]
    · rw [if_neg hc, if_neg hc, ih]

/-- What stands behind the end of a line has its own lines. -/
theorem lines_append (front back : String) :
    lines (front ++ "\n" ++ back) = lines (front ++ "\n") ++ lines back := by
  unfold lines
  rw [← List.map_append, String.toList_append, String.toList_append, List.append_assoc]
  exact congrArg (List.map String.ofList) (linesFrom_append [] front.toList back.toList)

/-! ## What a report should tell -/

/-- What a report is made of. -/
inductive ReportItem where
  | heading (level : Nat) (text : String)
  | entry (level : Nat) (e : HistoryEntry)

/-- A heading is written as a line. An entry is written as its lines, with a line end behind it or
    without: this only makes a difference to an entry that ends in a line end itself. -/
def ReportItem.WrittenAs : ReportItem → String → Prop
  | .heading level text, piece => piece = levelled level text
  | .entry level e, piece => piece = String.join ((lines e.text).map (levelled level)) ∨
      piece = String.join ((lines (e.text ++ "\n")).map (levelled level))

/-- The text consists of the items in their order and of nothing else. -/
def Reports (text : String) (items : List ReportItem) : Prop :=
  ∃ pieces, text = String.join pieces ∧ List.Forall₂ ReportItem.WrittenAs items pieces

def History.items (level : Nat) (h : History) : List ReportItem := h.entries.map (.entry level)

/-- A type with all its members. -/
def TypePlan.items (t : TypePlan) : List ReportItem :=
  .heading 1 (t.name ++ ":") :: (t.history.items 2
    ++ t.properties.flatMap (·.history.items 2)
    ++ t.methods.flatMap (·.history.items 2)
    ++ t.initializers.flatMap (·.history.items 2))

/-- A file with all its types and with what it declares outside of them. -/
def FilePlan.items (f : FilePlan) : List ReportItem :=
  .heading 0 (f.targetPath ++ ":") :: (f.history.items 1
    ++ f.types.flatMap TypePlan.items
    ++ f.functions.flatMap (·.history.items 1)
    ++ f.values.flatMap (·.history.items 1))

def Plan.items (p : Plan) : List ReportItem := p.files.flatMap FilePlan.items

/-! ### Without initializers -/

def TypePlan.withoutInitializers (t : TypePlan) : TypePlan := { t with initializers := [] }

def FilePlan.withoutInitializers (f : FilePlan) : FilePlan :=
  { f with types := f.types.map TypePlan.withoutInitializers }

def Plan.withoutInitializers (p : Plan) : Plan := ⟨p.files.map FilePlan.withoutInitializers⟩

theorem Plan.withoutInitializers_eq {p : Plan} (h : ∀ t ∈ p.types, t.initializers = []) :
    p.withoutInitializers = p := by
  refine congrArg Plan.mk ((List.map_congr_left fun f hf => ?_).trans (List.map_id _))
  have htypes : f.types.map TypePlan.withoutInitializers = f.types := by
    refine (List.map_congr_left fun t ht => ?_).trans (List.map_id _)
    have hnone : t.initializers = [] := h t (Plan.mem_types hf ht)
    unfold TypePlan.withoutInitializers
    rw [← hnone]
    rfl
  unfold FilePlan.withoutInitializers
  rw [htypes]
  rfl

/-! ## What a report tells -/

namespace Reports

variable {text other : String} {items more : List ReportItem}

theorem nil : Reports "" [] := ⟨[], rfl, .nil⟩

theorem append (h : Reports text items) (h' : Reports other more) :
    Reports (text ++ other) (items ++ more) := by
  obtain ⟨pieces, rfl, hpieces⟩ := h
  obtain ⟨others, rfl, hothers⟩ := h'
  exact ⟨pieces ++ others, String.join_append.symm, List.rel_append hpieces hothers⟩

theorem of_writtenAs {item : ReportItem} (h : item.WrittenAs text) : Reports text [item] :=
  ⟨[text], by rw [String.join_cons, String.join_nil, String.append_empty], .cons h .nil⟩

theorem heading (level : Nat) (line : String) :
    Reports (levelled level line) [.heading level line] := of_writtenAs rfl

/-- The reports on some things, one behind the other, tell what each of them tells. -/
theorem join {α : Type} {as : List α} {text : α → String} {items : α → List ReportItem}
    (h : ∀ a ∈ as, Reports (text a) (items a)) :
    Reports (String.join (as.map text)) (as.flatMap items) := by
  induction as with
  | nil => exact nil
  | cons a as ih =>
    rw [List.map_cons, String.join_cons, List.flatMap_cons]
    exact (h a List.mem_cons_self).append (ih fun b hb => h b (List.mem_cons_of_mem _ hb))

end Reports

/-- The lines of a history are those of its entries, one after the other. -/
theorem History.reports (level : Nat) (h : History) : Reports (h.report level) (h.items level) := by
  obtain ⟨entries⟩ := h
  unfold History.report History.items History.summary
  induction entries with
  | nil => exact .nil
  | cons e entries ih =>
    cases entries with
    | nil =>
      rw [List.map_singleton, List.map_singleton, String.intercalate_singleton]
      exact .of_writtenAs (Or.inl rfl)
    | cons e' entries =>
      have hlines : lines ("\n".intercalate ((e :: e' :: entries).map HistoryEntry.text)) =
          lines (e.text ++ "\n") ++
            lines ("\n".intercalate ((e' :: entries).map HistoryEntry.text)) := by
        rw [List.map_cons, List.map_cons, String.intercalate_cons_cons, lines_append]
      have hfirst : ReportItem.WrittenAs (.entry level e)
          (String.join ((lines (e.text ++ "\n")).map (levelled level))) := Or.inr rfl
      rw [hlines, List.map_append, String.join_append]
      exact (Reports.of_writtenAs hfirst).append ih

theorem TypePlan.reports (t : TypePlan) : Reports t.report t.withoutInitializers.items := by
  have hmembers := ((Reports.heading 1 (t.name ++ ":")).append (t.history.reports 2)).append
    (Reports.join fun (p : PropertyPlan) (_ : p ∈ t.properties) => p.history.reports 2)
  have hall := hmembers.append
    (Reports.join fun (m : MethodPlan) (_ : m ∈ t.methods) => m.history.reports 2)
  simpa [TypePlan.report, TypePlan.items, withoutInitializers] using hall

theorem FilePlan.reports {f : FilePlan} (h : f.functions = []) :
    Reports f.report f.withoutInitializers.items := by
  have htypes := ((Reports.heading 0 (f.targetPath ++ ":")).append (f.history.reports 1)).append
    (Reports.join fun (t : TypePlan) (_ : t ∈ f.types) => t.reports)
  have hall := htypes.append
    (Reports.join fun (v : ValuePlan) (_ : v ∈ f.values) => v.history.reports 1)
  simpa [FilePlan.report, FilePlan.items, withoutInitializers, h, List.flatMap_map] using hall

theorem Plan.reports {p : Plan} (h : ∀ f ∈ p.files, f.functions = []) :
    Reports p.report p.withoutInitializers.items := by
  unfold Plan.items withoutInitializers
  rw [List.flatMap_map]
  exact .join fun f hf => FilePlan.reports (h f hf)

/-! ## Plans that are made of headers -/

/-- No file has a function outside its types, and no initializer is without an entry. -/
structure Plan.FromHeaders (p : Plan) : Prop where
  functions : ∀ f ∈ p.files, f.functions = []
  initializers : ∀ t ∈ p.types, ∀ i ∈ t.initializers, i.history.entries ≠ []

theorem InitializerPlan.entries_of_ofNode? {m : TypeMap} {path : String} {lines : LineIndex}
    {n : Node} {data : MethodData} {i : InitializerPlan}
    (h : ofNode? m path lines n data = some i) : i.history.entries ≠ [] := by
  unfold ofNode? at h
  obtain ⟨selector, -, h⟩ := Option.bind_eq_some_iff.mp h
  split at h
  · obtain rfl := Option.some.inj h
    exact List.cons_ne_nil _ _
  · cases h

theorem TypePlan.initializers_of_ofNode {path : String} {lines : LineIndex} {kind : TypeKind}
    {name : String} {supertype : Option String} {n : Node} {i : InitializerPlan}
    (h : i ∈ (ofNode path lines kind name supertype n).initializers) : i.history.entries ≠ [] := by
  obtain ⟨_, _, h⟩ := List.mem_filterMap.mp h
  exact InitializerPlan.entries_of_ofNode? h

namespace Plan.FromHeaders

variable {p q : Plan}

theorem empty : Plan.empty.FromHeaders := ⟨fun _ h => (nomatch h), fun _ h => (nomatch h)⟩

theorem addFile (h : p.FromHeaders) (path source : String) (root : Node) :
    (p.addFile (FilePlan.ofHeader path source root)).FromHeaders := by
  constructor
  · intro f hf
    rcases List.mem_append.mp hf with hf | hf
    · exact h.functions f hf
    · rw [List.mem_singleton.mp hf]
      rfl
  · intro t ht
    obtain ⟨f, hf, ht⟩ := List.mem_flatMap.mp ht
    rcases List.mem_append.mp hf with hf | hf
    · exact h.initializers t (Plan.mem_types hf ht)
    · rw [List.mem_singleton.mp hf] at ht
      rcases List.mem_append.mp ht with ht | ht
      all_goals
        obtain ⟨_, _, ht⟩ := List.mem_filterMap.mp ht
        obtain ⟨_, _, rfl⟩ := Option.map_eq_some_iff.mp ht
        exact fun i hi => TypePlan.initializers_of_ofNode hi

theorem mergeAccessors (h : p.FromHeaders) : p.mergeAccessors.FromHeaders := by
  constructor
  · intro f hf
    obtain ⟨g, hg, rfl⟩ := List.mem_map.mp hf
    exact h.functions g hg
  · intro t ht
    rw [types_mergeAccessors] at ht
    obtain ⟨u, hu, rfl⟩ := List.mem_map.mp ht
    exact h.initializers u hu

theorem dropEmptyExtensions (h : p.FromHeaders) : p.dropEmptyExtensions.FromHeaders := by
  constructor
  · intro f hf
    obtain ⟨g, hg, rfl⟩ := List.mem_map.mp hf
    exact h.functions g hg
  · intro t ht
    rw [types_dropEmptyExtensions] at ht
    exact h.initializers t (List.mem_of_mem_filter ht)

theorem simplify (h : p.FromHeaders) (settings : Settings) :
    (Session.simplify settings p).1.FromHeaders := by
  have hmerged : (if settings.mergeAccessors then p.mergeAccessors else p).FromHeaders := by
    split
    · exact h.mergeAccessors
    · exact h
  change (if settings.dropEmptyExtensions then _ else _ : Plan).FromHeaders
  split
  · exact hmerged.dropEmptyExtensions
  · exact hmerged

/-- Values have no part in it. -/
theorem of_withoutValues_eq (h : p.FromHeaders) (heq : p.withoutValues = q.withoutValues) :
    q.FromHeaders := by
  constructor
  · intro f hf
    have hmem : f.withoutValues ∈ q.withoutValues.files := List.mem_map_of_mem hf
    rw [← heq] at hmem
    obtain ⟨g, hg, hgf⟩ := List.mem_map.mp hmem
    exact (congrArg FilePlan.functions hgf).symm.trans (h.functions g hg)
  · rw [← types_withoutValues, ← heq, types_withoutValues]
    exact h.initializers

end Plan.FromHeaders

namespace Session

theorem fromHeaders_run {s : Session} (h : s.plan.FromHeaders) : s.run.1.plan.FromHeaders :=
  (h.simplify s.settings).of_withoutValues_eq (s.alike_foldedUpTo_run []).plan

/-- Whatever is asked of a session, the settings stay and the plan is made of headers. -/
theorem fromHeaders_perform {s s' : Session} {calls : List Call} (h : s.plan.FromHeaders)
    (hcalls : s.perform calls = .ok s') : s'.settings = s.settings ∧ s'.plan.FromHeaders := by
  induction calls generalizing s with
  | nil =>
    obtain rfl := Except.ok.inj hcalls
    exact ⟨rfl, h⟩
  | cons call calls ih =>
    cases call with
    | run =>
      have hnext := ih (fromHeaders_run h) hcalls
      exact ⟨hnext.1.trans s.settings_run, hnext.2⟩
    | addHeader path source =>
      obtain ⟨read, hread⟩ := exists_read_header source s.log (some path)
      unfold perform addHeader at hcalls
      rw [hread] at hcalls
      let next : Session := { s with
        plan := s.plan.addFile (FilePlan.ofHeader path source read.root)
        log := read.log
        pending := s.pending ++ directives path source read }
      have hnext : next.plan.FromHeaders := h.addFile path source read.root
      have hdone := ih hnext hcalls
      exact hdone

theorem history_run (s : Session) : s.run.2.history =
    if s.settings.reportHistory then some s.run.1.plan.report else none := rfl

/-! ## Single headers -/

open Grammar in
/-- A session with one header that has no directives, told from the tokens of the header. -/
theorem exists_perform_of_test (path : String) {source : String} {row : List Token}
    (hrow : significant (tokenize source) = row) (hnone : directivesOf (tokenize source) = [])
    (settings : Settings) (test : Session → Bool)
    (h : isDoneWith (fun u => u.nodes.opened.all fun n => test { Session.begin settings with
        plan := ⟨[FilePlan.ofHeader path source
          { n with range := some ⟨0, u.sourceLength, Nat.zero_le _⟩ }]⟩
        log := u.log })
      (header { before row with
        sourceLength := source.utf8ByteSize
        origin := some path }) = true) :
    ∃ s, (Session.begin settings).perform [.addHeader path source] = .ok s ∧ test s = true := by
  have hstart : { before row with
      sourceLength := source.utf8ByteSize
      origin := some path } = ReadState.start source (tokenize source) .empty (some path) := by
    subst hrow
    rfl
  rw [hstart] at h
  obtain ⟨u, hdone, htest⟩ := exists_of_isDoneWith h
  obtain ⟨root, _, hopened, _, hread, _⟩ := exists_read_of_header hdone
  rw [hopened, List.all_cons, List.all_nil, Bool.and_true] at htest
  refine ⟨_, ?_, htest⟩
  unfold perform addHeader
  change (Header.read source .empty (some path) >>= _) >>= _ = _
  rw [hread, hnone]
  rfl

/-! ## Reports of runs -/

/-- Whatever is asked of a session that reports histories, the report of a run is made up, in the
    order of the plan, of a heading for each file and each type and of every entry of every history
    but those of the initializers, each of which has one. So it is complete if no type has an
    initializer. -/
theorem report_complete {settings : Settings} (hsettings : settings.reportHistory = true)
    (globals : List Definition) (calls : List Call) :
    ∃ s, (Session.begin settings globals).perform calls = .ok s ∧
      ∃ text, s.run.2.history = some text ∧
        Reports text s.run.1.plan.withoutInitializers.items ∧
        ((∀ t ∈ s.run.1.plan.types, t.initializers = []) → Reports text s.run.1.plan.items) ∧
        ∀ t ∈ s.run.1.plan.types, ∀ i ∈ t.initializers, i.history.entries ≠ [] := by
  obtain ⟨s, hs⟩ := exists_perform (Session.begin settings globals) calls
  obtain ⟨hkept, hplan⟩ := fromHeaders_perform Plan.FromHeaders.empty hs
  have hrun := fromHeaders_run hplan
  have hreports := Plan.reports hrun.functions
  refine ⟨s, hs, s.run.1.plan.report, ?_, hreports, fun hnone => ?_, hrun.initializers⟩
  · rw [history_run, hkept]
    exact if_pos hsettings
  · rwa [Plan.withoutInitializers_eq hnone] at hreports

set_option maxRecDepth 4096 in
/-- A getter leaves an entry with its class and one with the property that it is merged into. -/
theorem report_complete_merged :
    ({ reportHistory := true } : Settings).reportHistory = true ∧
    ∃ s, (Session.begin { reportHistory := true }).perform
        [.addHeader "A.h" "@interface A\n@property int x;\n-(int)x;\n@end"] = .ok s ∧
      (∀ t ∈ s.run.1.plan.types, t.initializers = []) ∧ s.run.1.plan.items.length = 6 ∧
      ∃ text, s.run.2.history = some text ∧ Reports text s.run.1.plan.items := by
  let row : List Token := [⟨.atInterface, "@interface", ⟨0, 10, by decide⟩⟩,
    ⟨.identifier, "A", ⟨11, 12, by decide⟩⟩, ⟨.atProperty, "@property", ⟨13, 22, by decide⟩⟩,
    ⟨.identifier, "int", ⟨23, 26, by decide⟩⟩, ⟨.identifier, "x", ⟨27, 28, by decide⟩⟩,
    ⟨.semicolon, ";", ⟨28, 29, by decide⟩⟩, ⟨.minus, "-", ⟨30, 31, by decide⟩⟩,
    ⟨.leftParen, "(", ⟨31, 32, by decide⟩⟩, ⟨.identifier, "int", ⟨32, 35, by decide⟩⟩,
    ⟨.rightParen, ")", ⟨35, 36, by decide⟩⟩, ⟨.identifier, "x", ⟨36, 37, by decide⟩⟩,
    ⟨.semicolon, ";", ⟨37, 38, by decide⟩⟩, ⟨.atEnd, "@end", ⟨39, 43, by decide⟩⟩]
  have hrow : significant (tokenize "@interface A\n@property int x;\n-(int)x;\n@end") = row := by
    cbv
  have hnone : directivesOf (tokenize "@interface A\n@property int x;\n-(int)x;\n@end") = [] := by
    cbv
  obtain ⟨s, hs, htest⟩ := exists_perform_of_test "A.h" hrow hnone
    { reportHistory := true } (fun s => s.run.1.plan.types.all (·.initializers.isEmpty) &&
      s.run.1.plan.items.length == 6) (by decide +kernel)
  obtain ⟨hempty, hlength⟩ := Bool.and_eq_true_iff.mp htest
  obtain ⟨s', hs', text, htext, -, hcomplete, -⟩ := report_complete
    (rfl : ({ reportHistory := true } : Settings).reportHistory = true) []
    [.addHeader "A.h" "@interface A\n@property int x;\n-(int)x;\n@end"]
  obtain rfl := Except.ok.inj (hs.symm.trans hs')
  have hinitializers : ∀ t ∈ s.run.1.plan.types, t.initializers = [] := by simpa using hempty
  exact ⟨rfl, _, hs, hinitializers, beq_iff_eq.mp hlength, text, htext, hcomplete hinitializers⟩

set_option maxRecDepth 4096 in
/-- The entry of an initializer, which tells where it was declared, is nowhere in the report. -/
theorem exists_entry_unreported :
    ∃ s text, (Session.begin { reportHistory := true }).perform
        [.addHeader "A.h" "@interface A\n- (instancetype)init;\n@end"] = .ok s ∧
      s.run.2.history = some text ∧
      ∃ t ∈ s.run.1.plan.types, ∃ i ∈ t.initializers, ∃ e ∈ i.history.entries,
        e.text = "[Creation] A.h line 2 column 1" ∧ ¬ e.text.toList <:+: text.toList := by
  let row : List Token := [⟨.atInterface, "@interface", ⟨0, 10, by decide⟩⟩,
    ⟨.identifier, "A", ⟨11, 12, by decide⟩⟩, ⟨.minus, "-", ⟨13, 14, by decide⟩⟩,
    ⟨.leftParen, "(", ⟨15, 16, by decide⟩⟩, ⟨.identifier, "instancetype", ⟨16, 28, by decide⟩⟩,
    ⟨.rightParen, ")", ⟨28, 29, by decide⟩⟩, ⟨.identifier, "init", ⟨29, 33, by decide⟩⟩,
    ⟨.semicolon, ";", ⟨33, 34, by decide⟩⟩, ⟨.atEnd, "@end", ⟨35, 39, by decide⟩⟩]
  have hrow : significant (tokenize "@interface A\n- (instancetype)init;\n@end") = row := by cbv
  have hnone : directivesOf (tokenize "@interface A\n- (instancetype)init;\n@end") = [] := by cbv
  obtain ⟨s, hs, htest⟩ := exists_perform_of_test "A.h" hrow hnone
    { reportHistory := true } (fun s => s.run.2.history.any fun text =>
      s.run.1.plan.types.any fun t => t.initializers.any fun i => i.history.entries.any fun e =>
        e.text == "[Creation] A.h line 2 column 1" && !decide (e.text.toList <:+: text.toList))
    (by decide +kernel)
  simp only [Option.any_eq_true, List.any_eq_true, Bool.and_eq_true, beq_iff_eq,
    Bool.not_eq_true', decide_eq_false_iff_not] at htest
  obtain ⟨text, htext, htest⟩ := htest
  exact ⟨s, text, hs, htext, htest⟩

end Session

end HeaderBridge
