import CloudLedger.Proofs.Delta
import CloudLedger.Proofs.FirstWrites
import CloudLedger.Proofs.StateFile.Replacing

/-!
# Transcripts of stores

A store is saved to, listed, asked for recorded usage, and has running totals reduced; what was
asked of it and what it replied make a transcript.  Between two requests the disk may change in any
way.  Whatever the transcript, the history is what the store began with and what was saved
successfully since, with the first report of every identity kept, and a state file none of whose
writes fail replies as a history in memory does.
-/

namespace CloudLedger

open Files KeepsHistory

/-- Stores that refuse without a trace. -/
class RefusesCleanly (σ : Type) [Store σ] : Prop where
  save_error {reports : List (Report Float)} {fault : Fault} {s t : σ} {d e : Disk} :
    (Store.save reports).run (s, d) = .error fault (t, e) → t = s
  save_nil (s : σ) (d : Disk) :
    (Store.save ([] : List (Report Float))).run (s, d) = .error (.save .nothingToSave) (s, d)

theorem History.save_run {reports : List (Report Float)} (hne : reports ≠ []) (h : History Float)
    (d : Disk) : (Store.save reports).run (h, d) = .ok () (h.add reports, d) := by
  simp only [Store.save, refuseEmpty, if_neg hne]
  rfl

instance : RefusesCleanly (History Float) where
  save_error {reports _ s _ d _} h := by
    by_cases hne : reports = []
    · subst hne
      cases h
      rfl
    · rw [History.save_run hne] at h
      cases h
  save_nil _ _ := rfl

instance : RefusesCleanly StateFile where
  save_error h := (StateFile.save_eq_error h).1
  save_nil _ _ := rfl

/-- What can be asked of a store. -/
inductive Request where
  | save (reports : List (Report Float))
  | list
  | lookUp (q : Query)
  | reduce (lookupRule : LookupRule) (totals : List (Report Float))
deriving DecidableEq

/-- What a store replies. -/
inductive Reply where
  | saved (answer : Except Fault Unit)
  | listed (reports : List (Report Float))
  | found (answer : Except Fault (Option (Measures Float)))
  | reduced (answer : Except Fault (List (Report Float)))
deriving DecidableEq

variable {σ : Type} [Store σ] [KeepsHistory σ]

/-- Do what is asked. -/
def Request.serve (state : σ × Disk) : Request → Reply × (σ × Disk)
  | .save reports =>
    match (Store.save reports).run state with
    | .ok _ after => (.saved (.ok ()), after)
    | .error fault after => (.saved (.error fault), after)
  | .list => (.listed (history state.1).reports, state)
  | .lookUp q => (.found (Store.lookup state.1 q), state)
  | .reduce lookupRule totals =>
    (.reduced (Delta.apply (Store.lookup state.1) lookupRule totals).outcome, state)

/-- What is asked of a store and what it replies until it has come to be another one.  Before each
request the disk may have become any other. -/
inductive Transcript : σ → List (Request × Reply) → σ → Prop where
  | done (s : σ) : Transcript s [] s
  | step {s t u : σ} {request : Request} {reply : Reply} {log : List (Request × Reply)}
    {d e : Disk} : request.serve (s, d) = (reply, (t, e)) → Transcript t log u →
      Transcript s ((request, reply) :: log) u

/-- Do all that is asked, one thing after the other. -/
def Request.serveAll (state : σ × Disk) : List Request → List (Request × Reply) × (σ × Disk)
  | [] => ([], state)
  | request :: rest =>
    let (reply, next) := request.serve state
    let (log, last) := serveAll next rest
    ((request, reply) :: log, last)

/-- The lists that were saved successfully. -/
def savedIn (log : List (Request × Reply)) : List (List (Report Float)) :=
  log.filterMap fun
    | (.save reports, .saved (.ok _)) => some reports
    | _ => none

/-- Whether no save failed but those of nothing. -/
def NoWriteFails (log : List (Request × Reply)) : Prop :=
  ∀ reports fault, (Request.save reports, Reply.saved (.error fault)) ∈ log → reports = []

variable {s t u : σ} {d e : Disk} {request : Request} {reply : Reply}
  {log more : List (Request × Reply)}

/-! ## One request -/

theorem history_of_serve_save [RefusesCleanly σ] {reports : List (Report Float)}
    (h : (Request.save reports).serve (t, d) = (reply, (u, e))) :
    (reply = .saved (.ok ()) ∧ history u = (history t).add reports) ∨
      ∃ fault, reply = .saved (.error fault) ∧ u = t := by
  rw [Request.serve] at h
  split at h
  · rename_i hsave
    obtain ⟨rfl, rfl⟩ := Prod.mk.inj h
    exact .inl ⟨rfl, save_ok hsave⟩
  · rename_i fault _ hsave
    obtain ⟨rfl, rfl⟩ := Prod.mk.inj h
    exact .inr ⟨fault, rfl, RefusesCleanly.save_error hsave⟩

/-- A request adds to the history what it saves. -/
theorem history_of_serve [RefusesCleanly σ] (h : request.serve (t, d) = (reply, (u, e))) :
    history u = (history t).add (savedIn [(request, reply)]).flatten := by
  have hnothing : (history t).add [] = history t := History.add_eq_self (by simp)
  cases request with
  | save reports =>
    rcases history_of_serve_save h with ⟨rfl, hadd⟩ | ⟨fault, rfl, rfl⟩
    · simpa [savedIn] using hadd
    · simpa [savedIn] using hnothing.symm
  | list | lookUp | reduce =>
    obtain ⟨rfl, hstate⟩ := Prod.mk.inj h
    obtain rfl := (Prod.mk.inj hstate).1
    simpa [savedIn] using hnothing.symm

omit [Store σ] [KeepsHistory σ] in
/-- In memory the disk does not matter. -/
theorem serve_in_memory {g h : History Float} (hserve : request.serve (g, d) = (reply, (h, e)))
    (f : Disk) : request.serve (g, f) = (reply, (h, f)) := by
  cases request with
  | save reports =>
    by_cases hne : reports = []
    · subst hne
      cases hserve
      rfl
    · rw [Request.serve, History.save_run hne] at hserve ⊢
      cases hserve
      rfl
  | list | lookUp | reduce =>
    cases hserve
    rfl

/-- If no write fails, what is replied depends on the history only. -/
theorem serve_history [RefusesCleanly σ] (h : request.serve (t, d) = (reply, (u, e)))
    (hwrites : NoWriteFails [(request, reply)]) (f : Disk) :
    request.serve (history t, f) = (reply, (history u, f)) := by
  cases request with
  | save reports =>
    rcases history_of_serve_save h with ⟨rfl, hadd⟩ | ⟨fault, rfl, rfl⟩
    · have hne : reports ≠ [] := by
        rintro rfl
        simp [Request.serve, RefusesCleanly.save_nil] at h
      rw [Request.serve, History.save_run hne, hadd]
    · obtain rfl := hwrites reports fault (List.mem_singleton_self _)
      simp only [Request.serve, RefusesCleanly.save_nil] at h ⊢
      obtain ⟨hfault, -⟩ := Prod.mk.inj h
      rw [hfault]
  | list | lookUp | reduce =>
    obtain ⟨rfl, hstate⟩ := Prod.mk.inj h
    obtain rfl := (Prod.mk.inj hstate).1
    simp only [Request.serve, lookup_eq]
    rfl

/-! ## Transcripts -/

theorem noWriteFails_cons {entry : Request × Reply} :
    NoWriteFails (entry :: log) ↔ NoWriteFails [entry] ∧ NoWriteFails log := by
  simp only [NoWriteFails, List.mem_cons, List.not_mem_nil, or_false, or_imp, forall_and]

namespace Transcript

/-- Whatever is asked is replied to. -/
theorem of_serveAll (requests : List Request) (s : σ) (d : Disk) :
    Transcript s (Request.serveAll (s, d) requests).1 (Request.serveAll (s, d) requests).2.1 := by
  induction requests generalizing s d with
  | nil => exact .done s
  | cons request rest ih => exact .step rfl (ih ..)

variable [RefusesCleanly σ]

theorem history_eq (h : Transcript s log t) :
    history t = (history s).add (savedIn log).flatten := by
  induction h with
  | done s => exact (History.add_eq_self (by simp [savedIn])).symm
  | @step _ _ _ request reply log _ _ hserve _ ih =>
    have hsaved : savedIn ((request, reply) :: log) = savedIn [(request, reply)] ++ savedIn log :=
      List.filterMap_append (l := [(request, reply)])
    rw [ih, history_of_serve hserve, History.add_add, hsaved, List.flatten_append]

/-- A store none of whose writes fail replies as its history would in memory. -/
theorem in_memory (h : Transcript s log t) (hwrites : NoWriteFails log) :
    Transcript (history s) log (history t) := by
  induction h with
  | done s => exact .done _
  | @step _ _ _ _ _ _ d _ hserve _ ih =>
    obtain ⟨hfirst, hrest⟩ := noWriteFails_cons.mp hwrites
    exact .step (serve_history hserve hfirst d) (ih hrest)

omit [Store σ] [KeepsHistory σ] [RefusesCleanly σ] in
/-- In memory the requests decide what is replied and what comes of the history. -/
theorem unique_in_memory {g h k : History Float} {log' : List (Request × Reply)}
    (hlog : Transcript g log h) (hlog' : Transcript g log' k)
    (hrequests : log'.map Prod.fst = log.map Prod.fst) : log' = log ∧ k = h := by
  induction hlog generalizing log' k with
  | done =>
    obtain rfl := List.map_eq_nil_iff.mp hrequests
    cases hlog'
    exact ⟨rfl, rfl⟩
  | @step _ _ _ _ _ _ d _ hserve _ ih =>
    cases hlog' with
    | done => simp at hrequests
    | @step _ _ _ _ _ _ f _ hserve' hrest' =>
      obtain ⟨rfl, hrests⟩ := List.cons.inj hrequests
      have hsame := serve_in_memory hserve f
      rw [hserve'] at hsame
      obtain ⟨rfl, hstate⟩ := Prod.mk.inj hsame
      obtain ⟨rfl, -⟩ := Prod.mk.inj hstate
      obtain ⟨rfl, rfl⟩ := ih hrest' hrests
      exact ⟨rfl, rfl⟩

end Transcript

/-! ## First writes stay -/

/-- What it comes to when a store that began with some reports has a transcript: its history is what
was written first, it only ever grows, and it does not tell a list from its pieces or a repetition.
-/
structure KeepsFirst (initial : List (Report Float)) (log : List (Request × Reply)) (t : σ) :
    Prop where
  reports_eq : (history t).reports = firstOfEach (initial ++ (savedIn log).flatten)
  distinct : ((history t).reports.map Report.id).Nodup
  grows : ∀ more u, Transcript t more u → (history t).reports <+: (history u).reports
  refuses_nothing : ∀ d,
    (Store.save ([] : List (Report Float))).run (t, d) = .error (.save .nothingToSave) (t, d)
  in_pieces : ∀ reports more u v w d d₁ d₂ e₁ e₂ e₃,
    (Store.save reports).run (t, d) = .ok () (u, e₁) →
    (Store.save more).run (u, d₁) = .ok () (v, e₂) →
    (Store.save (reports ++ more)).run (t, d₂) = .ok () (w, e₃) → history v = history w
  twice : ∀ reports u v d d₁ e₁ e₂,
    (Store.save reports).run (t, d) = .ok () (u, e₁) →
    (Store.save reports).run (u, d₁) = .ok () (v, e₂) → history v = history u

theorem Transcript.keepsFirst [RefusesCleanly σ] {initial : List (Report Float)}
    (hinitial : history s = .ofReports initial) (h : Transcript s log t) :
    KeepsFirst initial log t where
  reports_eq := by
    rw [h.history_eq, hinitial, History.add_reports_eq_firstOfEach, History.ofReports_reports,
      firstOfEach_firstOfEach_append]
  distinct := (history t).distinct
  grows more u hmore := by
    rw [hmore.history_eq, History.add_reports]
    exact List.prefix_append _ _
  refuses_nothing := RefusesCleanly.save_nil t
  in_pieces reports more u v w d d₁ d₂ e₁ e₂ e₃ hfirst hsecond hwhole := by
    rw [save_ok hsecond, save_ok hfirst, save_ok hwhole, History.add_add]
  twice reports u v d d₁ e₁ e₂ hfirst hsecond := by
    rw [save_ok hsecond, save_ok hfirst, History.add_add_self]

namespace StateFile

/-- Whether a path holds a list of reports; a path that leads to nothing holds none. -/
def Holds (path : FilePath) (d : Disk) (initial : List (Report Float)) : Prop :=
  (∃ bytes, d.read path = .ok bytes ∧ read bytes = .ok initial) ∨
    d.read path = .error .missing ∧ initial = []

/-- What can be opened holds a list of reports, and that is what the history begins with. -/
theorem load_eq_ok {path : FilePath} {d : Disk} {s : StateFile} :
    load path d = .ok s ↔ ∃ initial, Holds path d initial ∧ s = ⟨path, .ofReports initial⟩ := by
  rw [load]
  constructor
  · intro h
    split at h
    · rename_i bytes hbytes
      split at h
      · rename_i reports hreports
        exact ⟨reports, .inl ⟨bytes, hbytes, hreports⟩, (Except.ok.inj h).symm⟩
      · cases h
    · rename_i hmissing
      exact ⟨[], .inr ⟨hmissing, rfl⟩, (Except.ok.inj h).symm⟩
    · cases h
  · rintro ⟨initial, ⟨bytes, hbytes, hreports⟩ | ⟨hmissing, rfl⟩, rfl⟩
    · simp only [hbytes, hreports]
    · simp only [hmissing]
      rfl

end StateFile

/-- Histories in memory and state files keep the first writes, and a state file none of whose writes
fail has the very transcripts that a history in memory with the same reports has. -/
theorem keepsFirst_of_transcript :
    (∀ initial log (h : History Float),
      Transcript (History.ofReports initial) log h → KeepsFirst initial log h) ∧
    ∀ path d (s : StateFile), StateFile.load path d = .ok s →
      ∃ initial, StateFile.Holds path d initial ∧
        ∀ log (t : StateFile), Transcript s log t →
          KeepsFirst initial log t ∧
          (NoWriteFails log → ∀ log' h, log'.map Prod.fst = log.map Prod.fst →
            (Transcript (History.ofReports initial) log' h ↔ log' = log ∧ h = t.history)) := by
  constructor
  · intro initial log h hlog
    exact hlog.keepsFirst rfl
  · intro path d s hload
    obtain ⟨initial, hholds, rfl⟩ := StateFile.load_eq_ok.mp hload
    refine ⟨initial, hholds, fun log t hlog ↦ ⟨hlog.keepsFirst rfl, ?_⟩⟩
    intro hwrites log' h hrequests
    have hmemory : Transcript (History.ofReports initial) log t.history := hlog.in_memory hwrites
    constructor
    · intro hlog'
      exact hmemory.unique_in_memory hlog' hrequests
    · rintro ⟨rfl, rfl⟩
      exact hmemory

section TwoDays

def diskUsage (id : String) (day : UInt32) (amount : Float) : Report Float :=
  ⟨⟨id⟩, ⟨.gcp, "1", "disk", ""⟩, "", ⟨day, 4, 2016⟩, "", ⟨amount, amount⟩⟩

/-- The first day is saved twice, the second time with another amount and another day. -/
def twoDaysLog : List (Request × Reply) :=
  [(.save [diskUsage "a" 1 2.0], .saved (.ok ())),
    (.save [], .saved (.error (.save .nothingToSave))),
    (.save [diskUsage "a" 1 5.0, diskUsage "b" 2 1.0], .saved (.ok ())),
    (.list, .listed [diskUsage "a" 1 2.0, diskUsage "b" 2 1.0])]

def twoDaysFile : StateFile := ⟨⟨"state.json"⟩, ⟨[], List.nodup_nil⟩⟩

def twoDaysDisk : Disk := ⟨[], [], [], [], List.nodup_nil⟩

/-- A state file that was missing keeps the first amount of the first day, as a history in memory
does. -/
theorem keepsFirst_of_transcript_twoDays :
    ∃ t : StateFile, Transcript twoDaysFile twoDaysLog t ∧
      t.history.reports = [diskUsage "a" 1 2.0, diskUsage "b" 2 1.0] ∧
      Transcript (History.ofReports []) twoDaysLog t.history := by
  have hload : StateFile.load ⟨"state.json"⟩ twoDaysDisk = .ok twoDaysFile := rfl
  have hlog := Transcript.of_serveAll (twoDaysLog.map Prod.fst) twoDaysFile twoDaysDisk
  have hreplies : (Request.serveAll (twoDaysFile, twoDaysDisk) (twoDaysLog.map Prod.fst)).1 =
      twoDaysLog := by
    decide +kernel
  have hwrites : NoWriteFails twoDaysLog := by
    intro reports fault hmem
    have hempty : reports = [] ∧ fault = .save .nothingToSave := by simpa [twoDaysLog] using hmem
    exact hempty.1
  rw [hreplies] at hlog
  generalize (Request.serveAll (twoDaysFile, twoDaysDisk) _).2.1 = t at hlog
  obtain ⟨initial, hholds, hall⟩ := keepsFirst_of_transcript.2 _ _ _ hload
  have hmissing : twoDaysDisk.read ⟨"state.json"⟩ = .error .missing := by decide +kernel
  obtain rfl : initial = [] := by
    rcases hholds with ⟨bytes, hbytes, -⟩ | ⟨-, hnone⟩
    · rw [hmissing] at hbytes
      cases hbytes
    · exact hnone
  obtain ⟨hkeeps, hmemory⟩ := hall _ _ hlog
  have hfirsts : firstOfEach ([] ++ (savedIn twoDaysLog).flatten) =
      [diskUsage "a" 1 2.0, diskUsage "b" 2 1.0] := by
    decide +kernel
  refine ⟨t, hlog, hkeeps.reports_eq.trans hfirsts, ?_⟩
  exact (hmemory hwrites _ _ rfl).mpr ⟨rfl, rfl⟩

end TwoDays

end CloudLedger
