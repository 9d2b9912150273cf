/-
What rules report on a walk.

A rule that looks at nodes by itself reports what its check gives at some node of the walk.  A scoped
rule reports what it is told by its records, and a record goes through many hands before it does:
it is opened at one node, passed on by every note below, and closed at the end.  So what is to be
said about the reports of a scoped rule is said about its records first (`Rule.Obeys`), and every
phase of the walk keeps it.  None of this depends on how the hooks are spoken about, so it is shown
for every `Query.Logic`; what is said about a violation may depend on what is remembered when it is
reported, as long as it stays true when more is remembered (`Lasting`).
-/
import Plumbline.Proofs.Analysis.Logic
import Plumbline.Rule.Walk

namespace Plumbline

open Query

/-- On the walk through a module, a rule has only records with the property `Q` and reports only
violations with the property `P`. -/
structure Rule.Obeys (L : Logic) (rule : Rule Query) (ctx : RuleContext)
    (Q : ScopeRecord → Prop) (P : Cache → Violation → Prop) : Prop where
  checks : ∀ {c : Cache}, ∀ check, rule.watch = .checks check →
    ∀ around node, .enter around node ∈ ctx.module.visits →
      L.Holds c (check { ctx with around } node) fun c' r => ∀ found, r = .ok found →
        ∀ v ∈ found, P c' v
  opens : ∀ {c : Cache}, ∀ kinds opens notes closes, rule.watch = .scopes kinds opens notes closes →
    ∀ around node, .enter around node ∈ ctx.module.visits →
      L.Holds c (opens { ctx with around } node) fun _ r => ∀ record, r = .ok (some record) → Q record
  notes : ∀ {c : Cache}, ∀ kinds opens notes closes, rule.watch = .scopes kinds opens notes closes →
    ∀ record, Q record → ∀ around node, .enter around node ∈ ctx.module.visits →
      L.Holds c (notes record { ctx with around } node) fun c' r =>
        ∀ found record', r = .ok (found, record') → (∀ v ∈ found, P c' v) ∧ Q record'
  closes : ∀ {c : Cache}, ∀ kinds opens notes closes, rule.watch = .scopes kinds opens notes closes →
    ∀ record, Q record → ∀ around,
      L.Holds c (closes record { ctx with around }) fun c' r => ∀ found, r = .ok found →
        ∀ v ∈ found, P c' v

theorem Rule.Obeys.imp {L : Logic} {rule : Rule Query} {ctx : RuleContext} {Q : ScopeRecord → Prop}
    {P P' : Cache → Violation → Prop} (h : rule.Obeys L ctx Q P) (himp : ∀ c v, P c v → P' c v) :
    rule.Obeys L ctx Q P' where
  checks check hwatch around node hnode := L.imp (h.checks check hwatch around node hnode)
    fun c' _ _ hr found heq v hv => himp c' v (hr found heq v hv)
  opens := h.opens
  notes kinds opens notes closes hwatch record hrecord around node hnode :=
    L.imp (h.notes kinds opens notes closes hwatch record hrecord around node hnode)
      fun c' _ _ hr found record' heq =>
        ⟨fun v hv => himp c' v ((hr found record' heq).1 v hv), (hr found record' heq).2⟩
  closes kinds opens notes closes hwatch record hrecord around :=
    L.imp (h.closes kinds opens notes closes hwatch record hrecord around)
      fun c' _ _ hr found heq v hv => himp c' v (hr found heq v hv)

/-- A rule that looks at nodes by itself reports what its check gives. -/
theorem Rule.obeys_of_checks {L : Logic} {rule : Rule Query} {ctx : RuleContext}
    {check : Hook Query (List Violation)} {P : Cache → Violation → Prop}
    (hwatch : rule.watch = .checks check) (Q : ScopeRecord → Prop)
    (hcheck : ∀ c around node, .enter around node ∈ ctx.module.visits →
      L.Holds c (check { ctx with around } node) fun c' r => ∀ found, r = .ok found →
        ∀ v ∈ found, P c' v) :
    rule.Obeys L ctx Q P where
  checks check' h around node hnode := by
    obtain rfl := Watch.checks.inj (hwatch.symm.trans h)
    exact hcheck _ around node hnode
  opens _ _ _ _ h := absurd (hwatch.symm.trans h) (by simp)
  notes _ _ _ _ h := absurd (hwatch.symm.trans h) (by simp)
  closes _ _ _ _ h := absurd (hwatch.symm.trans h) (by simp)

/-- On the walk through a module, in single runs that keep `I`, a rule has only records with the
property `Q` and reports only violations with the property `P`. -/
abbrev Rule.Keeps (I : Project → Cache → Prop) (rule : Rule Query) (ctx : RuleContext)
    (Q : ScopeRecord → Prop) (P : Violation → Prop) : Prop :=
  rule.Obeys (yielding I) ctx Q fun _ => P

theorem Rule.Keeps.imp {I : Project → Cache → Prop} {rule : Rule Query} {ctx : RuleContext}
    {Q : ScopeRecord → Prop} {P P' : Violation → Prop} (h : rule.Keeps I ctx Q P)
    (himp : ∀ v, P v → P' v) : rule.Keeps I ctx Q P' := Rule.Obeys.imp h fun _ => himp

/-- What is said about violations stays true when more is remembered. -/
def Lasting (P : Rule Query → Cache → Violation → Prop) : Prop :=
  ∀ rule c c' v, c ≤ c' → P rule c v → P rule c' v

/-- A rule on its walk, all of whose open records have the property `Q` of its rule. -/
structure Watcher.Holds (rules : List (Rule Query)) (Q : Rule Query → ScopeRecord → Prop)
    (w : Watcher Query) : Prop where
  rule : w.rule ∈ rules
  scopes : ∀ records ∈ w.scopes, ∀ record ∈ records, Q w.rule record

/-- A report of violations that have the property `P` of some rule. -/
def Report.Of (rules : List (Rule Query)) (P : Rule Query → Cache → Violation → Prop) (c : Cache)
    (r : Report) : Prop :=
  ∀ v ∈ r.violations, ∃ rule ∈ rules, P rule c v

section

variable {L : Logic} {rules : List (Rule Query)} {ctx : RuleContext}
  {Q : Rule Query → ScopeRecord → Prop} {P : Rule Query → Cache → Violation → Prop} {c : Cache}

theorem Report.of_add {r r' : Report} (h : r.Of rules P c) (h' : r'.Of rules P c) :
    (r.add r').Of rules P c :=
  fun v hv => (List.mem_append.mp hv).elim (h v) (h' v)

theorem Report.Of.later (hP : Lasting P) {r : Report} {c' : Cache} (h : r.Of rules P c)
    (hle : c ≤ c') : r.Of rules P c' := by
  intro v hv
  obtain ⟨rule, hrule, hv'⟩ := h v hv
  exact ⟨rule, hrule, hP rule c c' v hle hv'⟩

/-- Something that a watcher does: it goes on as it should, and reports what it may. -/
def Kept (rules : List (Rule Query)) (Q : Rule Query → ScopeRecord → Prop)
    (P : Rule Query → Cache → Violation → Prop) (c : Cache) (x : Watcher Query × Report) : Prop :=
  x.1.Holds rules Q ∧ x.2.Of rules P c

theorem kept_silent {w : Watcher Query} (hw : w.Holds rules Q) : Kept rules Q P c (w, {}) :=
  ⟨hw, fun _ hv => absurd hv (by simp)⟩

theorem kept_error {w : Watcher Query} (hw : w.Holds rules Q) (ctx : RuleContext) (f : Fault) :
    Kept rules Q P c (w.answer ctx (.error f)) :=
  ⟨⟨hw.rule, hw.scopes⟩, fun _ hv => absurd hv List.not_mem_nil⟩

/-! ### One watcher -/

namespace Watcher

variable {w : Watcher Query} {around : Around} {node : Node}

/-- What one call of a hook keeps, all its calls keep. -/
theorem untilFailure_holds (hP : Lasting P) {α : Type}
    {act : α → Watcher Query → Query (Watcher Query × Report)} (rule : Rule Query) {items : List α}
    (hact : ∀ c, ∀ a ∈ items, ∀ w, w.rule = rule → w.Holds rules Q →
      L.Holds c (act a w) fun c' x => x.1.rule = rule ∧ Kept rules Q P c' x)
    (hrule : w.rule = rule) (hw : w.Holds rules Q) :
    L.Holds c (untilFailure act items w) (Kept rules Q P) := by
  induction items generalizing w c with
  | nil => exact L.pure (kept_silent hw)
  | cons a rest ih =>
      unfold untilFailure
      by_cases hfailed : w.failed = true
      · rw [if_pos hfailed]
        exact L.pure (kept_silent hw)
      · rw [if_neg hfailed]
        refine L.bind (hact c a (by simp) w hrule hw) ?_
        rintro c₁ ⟨w', report⟩ - ⟨hrule', hw', hreport⟩
        refine L.bind (ih (fun c a ha => hact c a (List.mem_cons_of_mem _ ha)) hrule' hw') ?_
        rintro c₂ ⟨w'', more⟩ hle ⟨hw'', hmore⟩
        exact L.pure ⟨hw'', Report.of_add (hreport.later hP hle) hmore⟩

theorem check_holds (hP : Lasting P) (hobeys : ∀ rule ∈ rules, rule.Obeys L ctx (Q rule) (P rule))
    (hw : w.Holds rules Q) (hnode : .enter around node ∈ ctx.module.visits) :
    L.Holds c (w.check { ctx with around } node) (Kept rules Q P) := by
  unfold check
  split
  · exact L.pure (kept_silent hw)
  · rename_i check hwatch
    refine untilFailure_holds hP w.rule (fun c _ _ w' hrule hw' => ?_) rfl hw
    refine L.bind ((hobeys _ hw.rule).checks check hwatch around node hnode) ?_
    rintro c' (f | found) - hfound
    · exact L.pure ⟨hrule, kept_error hw' _ f⟩
    · refine L.pure ⟨hrule, ⟨hw'.rule, hw'.scopes⟩, fun v hv => ?_⟩
      exact ⟨_, hw.rule, hfound found rfl v hv⟩

theorem exists_mem_of_innermost? {scopes : List (List ScopeRecord)} {record : ScopeRecord}
    (h : innermost? scopes = some record) : ∃ records ∈ scopes, record ∈ records := by
  have hmem : record ∈ scopes.flatten := List.mem_of_mem_head? h
  exact List.mem_flatten.mp hmem

/-- Only the record that is put in is new. -/
theorem forall_setInnermost {p : ScopeRecord → Prop} {record : ScopeRecord} (hrecord : p record)
    {scopes : List (List ScopeRecord)} (h : ∀ records ∈ scopes, ∀ r ∈ records, p r) :
    ∀ records ∈ setInnermost record scopes, ∀ r ∈ records, p r := by
  induction scopes with
  | nil => simp [setInnermost]
  | cons records rest ih =>
      obtain ⟨hrecords, hrest⟩ := List.forall_mem_cons.mp h
      cases records with
      | nil => exact List.forall_mem_cons.mpr ⟨by simp, ih hrest⟩
      | cons old records =>
          have htail := (List.forall_mem_cons.mp hrecords).2
          exact List.forall_mem_cons.mpr ⟨List.forall_mem_cons.mpr ⟨hrecord, htail⟩, hrest⟩

theorem forall_push {p : ScopeRecord → Prop} {record : ScopeRecord} (hrecord : p record)
    {scopes : List (List ScopeRecord)} (h : ∀ records ∈ scopes, ∀ r ∈ records, p r) :
    ∀ records ∈ push record scopes, ∀ r ∈ records, p r := by
  cases scopes with
  | nil => simpa [push] using hrecord
  | cons records rest =>
      obtain ⟨hrecords, hrest⟩ := List.forall_mem_cons.mp h
      exact List.forall_mem_cons.mpr ⟨List.forall_mem_cons.mpr ⟨hrecord, hrecords⟩, hrest⟩

theorem note_holds (hP : Lasting P) (hobeys : ∀ rule ∈ rules, rule.Obeys L ctx (Q rule) (P rule))
    (hw : w.Holds rules Q) (hnode : .enter around node ∈ ctx.module.visits) :
    L.Holds c (w.note { ctx with around } node) (Kept rules Q P) := by
  unfold note
  split
  · exact L.pure (kept_silent hw)
  · rename_i kinds opens notes closes hwatch
    refine untilFailure_holds hP w.rule (fun c _ _ w' hrule hw' => ?_) rfl hw
    split
    · exact L.pure ⟨hrule, kept_silent hw'⟩
    · rename_i record hrecord
      obtain ⟨records, hrecords, hmem⟩ := exists_mem_of_innermost? hrecord
      have hold : Q w.rule record := by
        rw [← hrule]
        exact hw'.scopes records hrecords record hmem
      refine L.bind ((hobeys _ hw.rule).notes _ _ _ _ hwatch record hold around node hnode) ?_
      rintro c' (f | ⟨found, record'⟩) - hnoted
      · exact L.pure ⟨hrule, kept_error hw' _ f⟩
      · obtain ⟨hfound, hrecord'⟩ := hnoted found record' rfl
        have hnew : Q w'.rule record' := by rwa [hrule]
        exact L.pure ⟨hrule, ⟨hw'.rule, forall_setInnermost hnew hw'.scopes⟩,
          fun v hv => ⟨_, hw.rule, hfound v hv⟩⟩

theorem openScope_holds (hP : Lasting P)
    (hobeys : ∀ rule ∈ rules, rule.Obeys L ctx (Q rule) (P rule)) (hw : w.Holds rules Q)
    (hnode : .enter around node ∈ ctx.module.visits) :
    L.Holds c (w.openScope { ctx with around } node) (Kept rules Q P) := by
  unfold openScope
  split
  · exact L.pure (kept_silent hw)
  · rename_i kinds opens notes closes hwatch
    refine untilFailure_holds hP w.rule (fun c _ _ w' hrule hw' => ?_) rfl
      ⟨hw.rule, List.forall_mem_cons.mpr ⟨by simp, hw.scopes⟩⟩
    refine L.bind ((hobeys _ hw.rule).opens _ _ _ _ hwatch around node hnode) ?_
    rintro c' (f | _ | record) - hopened
    · exact L.pure ⟨hrule, kept_error hw' _ f⟩
    · exact L.pure ⟨hrule, ⟨hw'.rule, hw'.scopes⟩, fun _ hv => absurd hv List.not_mem_nil⟩
    · have hnew : Q w'.rule record := by
        rw [hrule]
        exact hopened record rfl
      exact L.pure ⟨hrule, ⟨hw'.rule, forall_push hnew hw'.scopes⟩,
        fun _ hv => absurd hv List.not_mem_nil⟩

theorem closeScope_holds (hP : Lasting P)
    (hobeys : ∀ rule ∈ rules, rule.Obeys L ctx (Q rule) (P rule)) (hw : w.Holds rules Q) :
    L.Holds c (w.closeScope { ctx with around }) (Kept rules Q P) := by
  unfold closeScope
  split
  · exact L.pure (kept_silent hw)
  · rename_i kinds opens notes closes hwatch
    have hopen : ∀ record ∈ w.scopes.headD [], Q w.rule record := by
      cases hscopes : w.scopes with
      | nil => simp
      | cons records rest => exact hw.scopes records (by simp [hscopes])
    refine untilFailure_holds hP w.rule (fun c record hrecord w' hrule hw' => ?_) rfl
      ⟨hw.rule, fun records hrecords => hw.scopes records (List.mem_of_mem_tail hrecords)⟩
    refine L.bind ((hobeys _ hw.rule).closes _ _ _ _ hwatch record (hopen record hrecord)
      around) ?_
    rintro c' (f | found) - hfound
    · exact L.pure ⟨hrule, kept_error hw' _ f⟩
    · refine L.pure ⟨hrule, ⟨hw'.rule, hw'.scopes⟩, fun v hv => ?_⟩
      exact ⟨_, hw.rule, hfound found rfl v hv⟩

end Watcher

/-! ### All watchers -/

namespace Walk

/-- Everyone on a walk goes on as they should, and what was reported may be. -/
structure Holds (rules : List (Rule Query)) (Q : Rule Query → ScopeRecord → Prop)
    (P : Rule Query → Cache → Violation → Prop) (c : Cache) (watchers : List (Watcher Query))
    (log : WalkLog) : Prop where
  watchers : ∀ w ∈ watchers, w.Holds rules Q
  log : ∀ x ∈ log, x.2.Of rules P c

variable {act : Watcher Query → Query (Watcher Query × Report)}

/-- What each watcher keeps, all keep one after the other. -/
theorem inTurn_holds (hP : Lasting P)
    (hact : ∀ c w, w.Holds rules Q → L.Holds c (act w) (Kept rules Q P)) (n : Nat)
    {watchers : List (Watcher Query)} {log : WalkLog} (h : Holds rules Q P c watchers log) :
    L.Holds c (inTurn act n watchers log) fun c' x => Holds rules Q P c' x.1 x.2 := by
  induction watchers generalizing n log c with
  | nil => exact L.pure h
  | cons w ws ih =>
      unfold inTurn
      refine L.bind (hact c w (h.watchers w (by simp))) ?_
      rintro c₁ ⟨w', report⟩ hle ⟨hw', hreport⟩
      have hrest : Holds rules Q P c₁ ws ((n, report) :: log) :=
        ⟨fun w hw => h.watchers w (List.mem_cons_of_mem _ hw), List.forall_mem_cons.mpr
          ⟨hreport, fun x hx => (h.log x hx).later hP hle⟩⟩
      refine L.bind (ih (n + 1) hrest) ?_
      rintro c₂ ⟨ws', log'⟩ - hdone
      exact L.pure ⟨List.forall_mem_cons.mpr ⟨hw', hdone.watchers⟩, hdone.log⟩

theorem inReverse_holds (hP : Lasting P)
    (hact : ∀ c w, w.Holds rules Q → L.Holds c (act w) (Kept rules Q P)) (n : Nat)
    {watchers : List (Watcher Query)} {log : WalkLog} (h : Holds rules Q P c watchers log) :
    L.Holds c (inReverse act n watchers log) fun c' x => Holds rules Q P c' x.1 x.2 := by
  induction watchers generalizing n log c with
  | nil => exact L.pure h
  | cons w ws ih =>
      unfold inReverse
      have hrest : Holds rules Q P c ws log :=
        ⟨fun w hw => h.watchers w (List.mem_cons_of_mem _ hw), h.log⟩
      refine L.bind (ih (n + 1) hrest) ?_
      rintro c₁ ⟨ws', log'⟩ - hdone
      refine L.bind (hact c₁ w (h.watchers w (by simp))) ?_
      rintro c₂ ⟨w', report⟩ hle ⟨hw', hreport⟩
      exact L.pure ⟨List.forall_mem_cons.mpr ⟨hw', hdone.watchers⟩,
        List.forall_mem_cons.mpr ⟨hreport, fun x hx => (hdone.log x hx).later hP hle⟩⟩

theorem phase_holds (hP : Lasting P)
    (hact : ∀ c w, w.Holds rules Q → L.Holds c (act w) (Kept rules Q P)) {w : Walk Query}
    (h : Holds rules Q P c w.watchers w.log) :
    L.Holds c (w.phase act) fun c' w' => Holds rules Q P c' w'.watchers w'.log :=
  L.bind (inTurn_holds hP hact 0 h) fun _ _ _ h => L.pure h

/-- One step of the walk. -/
theorem step_holds (hP : Lasting P) (hobeys : ∀ rule ∈ rules, rule.Obeys L ctx (Q rule) (P rule))
    {w : Walk Query} (h : Holds rules Q P c w.watchers w.log) {visit : Visit}
    (hvisit : visit ∈ ctx.module.visits) :
    L.Holds c (step ctx w visit) fun c' w' => Holds rules Q P c' w'.watchers w'.log := by
  cases visit with
  | enter around node =>
      refine L.bind (phase_holds hP (fun _ w hw => w.check_holds hP hobeys hw hvisit) h) ?_
      intro c₁ w₁ _ h₁
      refine L.bind (phase_holds hP (fun _ w hw => w.note_holds hP hobeys hw hvisit) h₁) ?_
      intro c₂ w₂ _ h₂
      exact phase_holds hP (fun _ w hw => w.openScope_holds hP hobeys hw hvisit) h₂
  | leave around node =>
      exact L.bind (inReverse_holds hP (fun _ w hw => w.closeScope_holds hP hobeys hw) 0 h)
        fun _ _ _ h => L.pure h

end Walk

/-- **Every violation on a walk is one that some rule may report.** -/
theorem walk_holds (hP : Lasting P) (hobeys : ∀ rule ∈ rules, rule.Obeys L ctx (Q rule) (P rule)) :
    L.Holds c (walk rules ctx) fun c' outcome =>
      ∀ v ∈ outcome.violations, ∃ rule ∈ rules, P rule c' v := by
  have hstart : Walk.Holds rules Q P c (rules.map ({ rule := · })) [] := by
    refine ⟨List.forall_mem_map.mpr fun rule hrule => ⟨hrule, fun _ hr => ?_⟩, by simp⟩
    exact absurd hr (by simp)
  unfold walk walkLog
  refine L.bind (P := fun c' log => ∀ x ∈ log, x.2.Of rules P c') ?_ fun c' log _ hlog => ?_
  · refine L.bind (L.foldlM (Q := fun c' w => Walk.Holds rules Q P c' w.watchers w.log) hstart
      fun c' w visit hvisit _ hw => Walk.step_holds hP hobeys hw hvisit) ?_
    intro c' w _ hw
    exact L.pure fun x hx => hw.log x (List.mem_reverse.mp hx)
  · refine L.pure fun v hv => ?_
    obtain ⟨x, hx, hv⟩ := List.mem_flatMap.mp hv
    exact hlog x hx v hv

end

theorem yields_walk {I : Project → Cache → Prop} {rules : List (Rule Query)} {ctx : RuleContext}
    {Q : Rule Query → ScopeRecord → Prop} {P : Rule Query → Violation → Prop}
    (hkeeps : ∀ rule ∈ rules, rule.Keeps I ctx (Q rule) (P rule)) :
    Yields I (walk rules ctx) fun outcome => ∀ v ∈ outcome.violations, ∃ rule ∈ rules, P rule v :=
  walk_holds (L := yielding I) (P := fun rule _ => P rule) (c := {}) (fun _ _ _ _ _ h => h) hkeeps

end Plumbline
