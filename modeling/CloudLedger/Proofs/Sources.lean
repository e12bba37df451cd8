import CloudLedger.Batch
import CloudLedger.Proofs.Outcomes
import Mathlib.Data.List.Nodup

/-!
# The sources of a batch

A provider has an outcome if it has a source, and its outcome depends on its own sources only, taken
in their order, and of these only on the files that they come to.  How the sources of the providers
are interleaved does not matter, nor whether files come from one source or from several.
-/

namespace CloudLedger

open Files

variable {disk : Disk} {lookup : Lookup Float}

theorem flatMap_filter {β γ : Type} (items : List β) (keep : β → Bool) (f : β → List γ) :
    (items.filter keep).flatMap f = items.flatMap fun b ↦ if keep b then f b else [] := by
  induction items with
  | nil => rfl
  | cons b rest ih =>
    rw [List.flatMap_cons, ← ih, List.filter_cons]
    split_ifs
    · rw [List.flatMap_cons]
    · rw [List.nil_append]

namespace Source

/-- The files that a source comes to: those that are listed or those that are found. -/
def paths (disk : Disk) (s : Source) : Except Fault (List FilePath) :=
  match s.origin with
  | .files listed => .ok listed
  | .folder top =>
    if !disk.isFolder top then .error (.fetch s.provider (.noFolder top))
    else match findExports disk top with
      | [] => .error (.fetch s.provider (.noExports top))
      | found => .ok found

/-- The exports of sources, one after the other. -/
def gather (disk : Disk) (sources : List Source) : Except Fault (List (List UInt8)) :=
  List.flatten <$> sources.mapM (contents disk)

theorem contents_eq_bind (disk : Disk) (s : Source) :
    s.contents disk = s.paths disk >>= readListed disk s.provider := by
  obtain ⟨provider, origin⟩ := s
  cases origin with
  | files listed => rfl
  | folder top =>
    simp only [contents, paths]
    split_ifs
    · rfl
    · cases findExports disk top <;> rfl

theorem readListed_append (provider : Provider) (listed more : List FilePath) :
    readListed disk provider (listed ++ more) = do
      return (← readListed disk provider listed) ++ (← readListed disk provider more) :=
  List.mapM_append

theorem gather_cons (s : Source) (rest : List Source) :
    gather disk (s :: rest) = do return (← s.contents disk) ++ (← gather disk rest) := by
  rw [gather, gather, List.mapM_cons]
  cases s.contents disk with
  | error fault => rfl
  | ok exports => cases rest.mapM (contents disk) <;> rfl

theorem gather_append (sources more : List Source) :
    gather disk (sources ++ more) = do
      return (← gather disk sources) ++ (← gather disk more) := by
  rw [gather, gather, gather, List.mapM_append]
  cases sources.mapM (contents disk) with
  | error fault => rfl
  | ok exports =>
    cases more.mapM (contents disk) with
    | error fault => rfl
    | ok others => exact congrArg Except.ok List.flatten_append

/-- Only the files count that the sources of a provider come to. -/
theorem gather_eq_readListed {provider : Provider} {sources : List Source}
    {parts : List (List FilePath)} (hprovider : ∀ s ∈ sources, s.provider = provider)
    (hparts : sources.mapM (paths disk) = .ok parts) :
    gather disk sources = readListed disk provider parts.flatten := by
  have hall := mapM_eq_ok.mp hparts
  clear hparts
  induction hall with
  | nil => rfl
  | @cons s part _ rest hs _ ih =>
    obtain ⟨hfirst, hrest⟩ := List.forall_mem_cons.mp hprovider
    rw [gather_cons, ih hrest, contents_eq_bind, hs, hfirst, List.flatten_cons, readListed_append]
    rfl

end Source

namespace Plan

variable {plan : Plan} {p : Provider}

theorem exportsOf_eq_gather (plan : Plan) (disk : Disk) (p : Provider) :
    plan.exportsOf disk p = Source.gather disk (plan.sourcesOf p) := rfl

theorem providers_eq_filter (plan : Plan) :
    plan.providers = Provider.all.filter fun p ↦ plan.sourcesOf p ≠ [] := by
  apply List.filter_congr
  intro p _
  rw [Bool.eq_iff_iff]
  simp [sourcesOf]

theorem mem_providers : p ∈ plan.providers ↔ plan.sourcesOf p ≠ [] := by
  have hall : p ∈ Provider.all := by cases p <;> decide
  simp [providers_eq_filter, hall]

theorem nodup_providers (plan : Plan) : plan.providers.Nodup :=
  List.Nodup.filter _ (by decide)

/-- If every provider that has a source has come to one outcome, they are put in the order of the
providers. -/
theorem settle_eq_map {outcomes : List Outcome} {outcome : Provider → Outcome}
    (h : ∀ p, outcomes.filter (fun o ↦ o.provider = p) =
      if p ∈ plan.providers then [outcome p] else []) :
    settle outcomes = plan.providers.map outcome := by
  rw [settle, providers_eq_filter, List.map_eq_flatMap, flatMap_filter]
  congr 1
  funext p
  simp [h p, mem_providers]

theorem filter_map_outcome (lookup : Lookup Float) (disk : Disk) (p : Provider) :
    (plan.providers.map (plan.outcome lookup disk)).filter (fun o ↦ o.provider = p) =
      if p ∈ plan.providers then [plan.outcome lookup disk p] else [] := by
  have hsame : ((fun o : Outcome ↦ decide (o.provider = p)) ∘ plan.outcome lookup disk) =
      (· == p) := by
    funext q
    rfl
  rw [List.filter_map, hsame, List.filter_beq, (nodup_providers plan).count]
  split_ifs <;> rfl

theorem outcomes_eq_map (plan : Plan) (lookup : Lookup Float) (disk : Disk) :
    plan.outcomes lookup disk = plan.providers.map (plan.outcome lookup disk) :=
  settle_eq_map (filter_map_outcome lookup disk)

/-! ## Other sources -/

/-- The batch with other sources. -/
def withSources (plan : Plan) (sources : List Source) : Plan := { plan with sources }

variable {sources : List Source}

theorem outcome_congr {disk' : Disk}
    (hexports : (plan.withSources sources).exportsOf disk' p = plan.exportsOf disk p)
    (lookup : Lookup Float) :
    (plan.withSources sources).outcome lookup disk' p = plan.outcome lookup disk p := by
  rw [outcome, outcome, hexports]
  rfl

theorem outcomes_congr
    (hsources : ∀ p, (plan.withSources sources).sourcesOf p = [] ↔ plan.sourcesOf p = [])
    (hexports : ∀ p, (plan.withSources sources).exportsOf disk p = plan.exportsOf disk p)
    (lookup : Lookup Float) :
    (plan.withSources sources).outcomes lookup disk = plan.outcomes lookup disk := by
  have hproviders : (plan.withSources sources).providers = plan.providers := by
    simp only [providers_eq_filter, ne_eq, hsources]
  rw [outcomes_eq_map, outcomes_eq_map, hproviders]
  congr 1
  funext p
  exact outcome_congr (hexports p) lookup

/-- The batch of one provider alone. -/
def only (plan : Plan) (p : Provider) : Plan := plan.withSources (plan.sourcesOf p)

theorem sourcesOf_only (plan : Plan) (p q : Provider) :
    (plan.only p).sourcesOf q = if q = p then plan.sourcesOf p else [] := by
  rw [only, withSources, sourcesOf, sourcesOf, List.filter_filter]
  split_ifs with hqp
  · subst hqp
    simp
  · rw [List.filter_eq_nil_iff]
    intro s _
    simp only [Bool.and_eq_true, decide_eq_true_eq]
    rintro ⟨rfl, hp⟩
    exact hqp hp

/-- A provider that runs alone comes to its outcome in the batch. -/
theorem outcomes_only (hp : p ∈ plan.providers) (lookup : Lookup Float) (disk : Disk) :
    (plan.only p).outcomes lookup disk = [plan.outcome lookup disk p] := by
  have hproviders : (plan.only p).providers = [p] := by
    have hsources := mem_providers.mp hp
    simp only [providers_eq_filter, sourcesOf_only]
    cases p <;> simp [Provider.all, hsources]
  have hexports : (plan.only p).exportsOf disk p = plan.exportsOf disk p := by
    rw [exportsOf, exportsOf, sourcesOf_only, if_pos rfl]
  rw [outcomes_eq_map, hproviders, List.map_singleton]
  exact congrArg ([·]) (outcome_congr hexports lookup)

/-- What one provider has to work on takes nothing from the others. -/
theorem outcomes_of_others {q : Provider} {disk' : Disk}
    (hothers : ∀ p, p ≠ q → sources.filter (fun s ↦ s.provider = p) = plan.sourcesOf p)
    (hcontents : ∀ s ∈ plan.sources, s.provider ≠ q → s.contents disk' = s.contents disk)
    (lookup : Lookup Float) :
    ((plan.withSources sources).outcomes lookup disk').filter (fun o ↦ o.provider ≠ q) =
      (plan.outcomes lookup disk).filter fun o ↦ o.provider ≠ q := by
  have hsources : ∀ p, p ≠ q → (plan.withSources sources).sourcesOf p = plan.sourcesOf p :=
    hothers
  have hproviders : (plan.withSources sources).providers.filter (· ≠ q) =
      plan.providers.filter (· ≠ q) := by
    simp only [providers_eq_filter, List.filter_filter]
    apply List.filter_congr
    intro p _
    by_cases hp : p = q
    · simp [hp]
    · rw [hsources p hp]
  have houtcome : ∀ p ∈ plan.providers.filter (· ≠ q),
      (plan.withSources sources).outcome lookup disk' p = plan.outcome lookup disk p := by
    intro p hp
    have hpq : p ≠ q := by simpa using (List.mem_filter.mp hp).2
    have hmap : (plan.sourcesOf p).mapM (Source.contents disk') =
        (plan.sourcesOf p).mapM (Source.contents disk) := by
      apply mapM_congr
      intro s hs
      obtain ⟨hmem, hprovider⟩ := List.mem_filter.mp hs
      exact hcontents s hmem (by simpa [of_decide_eq_true hprovider] using hpq)
    apply outcome_congr
    rw [exportsOf, exportsOf, hsources p hpq, hmap]
  have hfilter (l : List Provider) (f : Provider → Outcome) (hf : ∀ p, (f p).provider = p) :
      (l.map f).filter (fun o ↦ o.provider ≠ q) = (l.filter (· ≠ q)).map f := by
    rw [List.filter_map]
    simp only [Function.comp_def, hf]
  rw [outcomes_eq_map, outcomes_eq_map, hfilter _ _ fun _ ↦ rfl, hfilter _ _ fun _ ↦ rfl,
    hproviders]
  exact List.map_congr_left houtcome

/-- It does not matter how the sources of the providers are interleaved. -/
theorem outcomes_interleaved
    (h : ∀ p, sources.filter (fun s ↦ s.provider = p) = plan.sourcesOf p) (lookup : Lookup Float)
    (disk : Disk) :
    (plan.withSources sources).outcomes lookup disk = plan.outcomes lookup disk := by
  have hsources : ∀ p, (plan.withSources sources).sourcesOf p = plan.sourcesOf p := h
  apply outcomes_congr
  · intro p
    rw [hsources]
  · intro p
    rw [exportsOf, exportsOf, hsources]

/-- It does not matter whether files come from one source or from several. -/
theorem outcomes_split {s : Source} {before pieces after : List Source}
    {parts : List (List FilePath)} (hsources : plan.sources = before ++ s :: after)
    (hne : pieces ≠ []) (hprovider : ∀ piece ∈ pieces, piece.provider = s.provider)
    (hpieces : pieces.mapM (Source.paths disk) = .ok parts)
    (hs : s.paths disk = .ok parts.flatten) (lookup : Lookup Float) :
    (plan.withSources (before ++ pieces ++ after)).outcomes lookup disk =
      plan.outcomes lookup disk := by
  have hown : Source.gather disk pieces = Source.gather disk [s] := by
    have hsingle : [s].mapM (Source.paths disk) = .ok [parts.flatten] := by
      simp [hs, bind, Except.bind, pure, Except.pure]
    have hself : ∀ t ∈ [s], t.provider = s.provider := by simp
    rw [Source.gather_eq_readListed hprovider hpieces,
      Source.gather_eq_readListed hself hsingle, List.flatten_singleton]
  have hkeep {p : Provider} (hp : s.provider = p) :
      pieces.filter (fun t ↦ t.provider = p) = pieces := by
    rw [List.filter_eq_self]
    intro piece hpiece
    simpa using (hprovider piece hpiece).trans hp
  have hdrop {p : Provider} (hp : s.provider ≠ p) :
      pieces.filter (fun t ↦ t.provider = p) = [] := by
    rw [List.filter_eq_nil_iff]
    intro piece hpiece
    simpa [hprovider piece hpiece] using hp
  apply outcomes_congr
  · intro p
    by_cases hp : s.provider = p
    · simp [sourcesOf, withSources, hsources, hkeep hp, hp, hne]
    · simp [sourcesOf, withSources, hsources, hdrop hp, hp]
  · intro p
    by_cases hp : s.provider = p
    · rw [List.append_cons] at hsources
      simp only [exportsOf_eq_gather, sourcesOf, withSources, hsources, List.filter_append,
        List.filter_singleton, hkeep hp, hp, decide_true, cond_true, Source.gather_append, hown]
    · simp [exportsOf_eq_gather, sourcesOf, withSources, hsources, hdrop hp, hp]

end Plan

end CloudLedger
