import CloudLedger.Proofs.StateFile.Contents

/-!
# State files are read as they are written

A document lists the members of each report in one order, each with its name.  Reading goes through
them in this order again and finds every report as it was written, apart from its measures.
-/

namespace CloudLedger.StateFile

open Text Amount

variable {rest : List UInt8}

/-! ## Members of a report -/

theorem commaJoined_cons (part : List UInt8) (parts : List (List UInt8)) :
    commaJoined (part :: parts) = part ++ parts.flatMap (byteOf ',' :: ·) := by
  induction parts generalizing part with
  | nil => simp [commaJoined]
  | cons next parts ih =>
    rw [commaJoined, List.intercalate_cons_cons, ← commaJoined, ih, List.flatMap_cons]
    simp

theorem ofName?_name (f : Field) : Field.ofName? f.name = some f := by
  cases f <;> rfl

/-- The bytes of a member after the quote that opens its name. -/
def openedField (r : Report Float) (f : Field) (more : List UInt8) : List UInt8 :=
  f.name.toList.flatMap escaped ++
    quote :: byteOf ':' :: byteOf ' ' :: (renderContent (r.content f) ++ more)

theorem skipGap_renderField (r : Report Float) (f : Field) (more : List UInt8) :
    skipGap (renderField r f ++ more) = quote :: openedField r f more := by
  have hbytes : renderField r f ++ more =
      Utf8.encode "\n    " ++ quote :: openedField r f more := by
    simp [renderField, openedField, renderString]
    rfl
  have hgap : ∀ b ∈ Utf8.encode "\n    ", isGap b := by decide +kernel
  rw [hbytes, skipGap, List.dropWhile_append_of_pos hgap]
  exact skipGap_quote _

theorem nextName_first (r : Report Float) (f : Field) (more : List UInt8) :
    nextName true (renderField r f ++ more) = .ok (some (openedField r f more)) := by
  rw [nextName, skipGap_renderField]
  rfl

theorem nextName_further (r : Report Float) (f : Field) (more : List UInt8) :
    nextName false (byteOf ',' :: (renderField r f ++ more)) =
      .ok (some (openedField r f more)) := by
  have hcomma : skipGap (byteOf ',' :: (renderField r f ++ more)) =
      byteOf ',' :: (renderField r f ++ more) := skipGap_cons (by decide)
  rw [nextName, hcomma]
  simp only [skipGap_renderField]
  rfl

/-- A member that was written is read to what becomes of its content. -/
theorem readMembers_openedField {first : Bool} {bs more : List UInt8} {found : Contents}
    {r : Report Float} {f : Field} (steps : Nat)
    (hnext : nextName first bs = .ok (some (openedField r f more)))
    (hnew : found.lookup f = none) (hmore : EndsNumber more) :
    readMembers (steps + 1) first found bs =
      rereadContent (r.content f) >>= fun c ↦ readMembers steps false ((f, c) :: found) more := by
  have hname : string (openedField r f more) =
      .ok (f.name, byteOf ':' :: byteOf ' ' :: (renderContent (r.content f) ++ more)) :=
    string_renderString f.name _
  have hcolon : mark ':' (byteOf ':' :: byteOf ' ' :: (renderContent (r.content f) ++ more)) =
      .ok ((), byteOf ' ' :: (renderContent (r.content f) ++ more)) := by
    rw [mark, skipGap_cons (by decide)]
    exact if_pos rfl
  rw [readMembers, hnext]
  simp only [bind, Except.bind, hname, ofName?_name, hnew, Option.isSome_none, Bool.false_eq_true,
    if_false, hcolon, readContent_renderContent r f hmore]
  cases rereadContent (r.content f) <;> rfl

/-- The end of a report, and what follows it. -/
def closed (rest : List UInt8) : List UInt8 := Utf8.encode "\n  \x7d" ++ rest

theorem endsNumber_members (r : Report Float) (fields : List Field) (rest : List UInt8) :
    EndsNumber (fields.flatMap (fun f ↦ byteOf ',' :: renderField r f) ++ closed rest) := by
  intro b hb
  cases fields with
  | nil =>
    have hhead : (closed rest).head? = some (byteOf '\n') := rfl
    rw [List.flatMap_nil, List.nil_append, hhead, Option.mem_some_iff] at hb
    subst hb
    decide
  | cons f fields =>
    obtain rfl : byteOf ',' = b := by simpa using hb
    decide

/-- What becomes of the contents of some fields. -/
def rereadFields (r : Report Float) (fields : List Field) : Except DocumentFault Contents :=
  fields.mapM fun f ↦ (f, ·) <$> rereadContent (r.content f)

/-- The members of a report are read to what becomes of them, if those after the first are. -/
theorem readMembers_cons {first : Bool} {bs more : List UInt8} {found : Contents}
    {r : Report Float} {f : Field} {fields : List Field} {steps : Nat}
    (hnext : nextName first bs = .ok (some (openedField r f more)))
    (hnew : found.lookup f = none) (hmore : EndsNumber more)
    (hfurther : ∀ c, readMembers steps false ((f, c) :: found) more =
      (fun contents ↦ (contents.reverse ++ (f, c) :: found, rest)) <$> rereadFields r fields) :
    readMembers (steps + 1) first found bs =
      (fun contents ↦ (contents.reverse ++ found, rest)) <$> rereadFields r (f :: fields) := by
  rw [readMembers_openedField steps hnext hnew hmore, rereadFields, List.mapM_cons,
    ← rereadFields]
  cases rereadContent (r.content f) with
  | error fault => rfl
  | ok c =>
    change readMembers steps false ((f, c) :: found) more = _
    rw [hfurther c]
    cases rereadFields r fields with
    | error fault => rfl
    | ok contents =>
      change Except.ok (contents.reverse ++ (f, c) :: found, rest) =
        .ok (((f, c) :: contents).reverse ++ found, rest)
      rw [List.reverse_cons, List.append_assoc, List.singleton_append]

theorem lookup_cons_none {found : Contents} {f : Field} {fields : List Field} (hf : f ∉ fields)
    (hnew : ∀ g ∈ fields, found.lookup g = none) (c : Content) :
    ∀ g ∈ fields, List.lookup g ((f, c) :: found) = none := by
  intro g hg
  have hne : (g == f) = false := by
    rw [beq_eq_false_iff_ne]
    exact fun heq ↦ hf (heq ▸ hg)
  rw [List.lookup_cons, hne]
  exact hnew g hg

theorem readMembers_further (r : Report Float) {fields : List Field} {found : Contents}
    {steps : Nat} (hsteps : fields.length < steps) (hnodup : fields.Nodup)
    (hnew : ∀ f ∈ fields, found.lookup f = none) :
    readMembers steps false found
        (fields.flatMap (fun f ↦ byteOf ',' :: renderField r f) ++ closed rest) =
      (fun contents ↦ (contents.reverse ++ found, rest)) <$> rereadFields r fields := by
  induction fields generalizing found steps with
  | nil =>
    cases steps with
    | zero => exact absurd hsteps (lt_irrefl 0)
    | succ steps => rfl
  | cons f fields ih =>
    cases steps with
    | zero => exact absurd hsteps (Nat.not_lt_zero _)
    | succ steps =>
      rw [List.nodup_cons] at hnodup
      have hfields : ∀ g ∈ fields, found.lookup g = none :=
        fun g hg ↦ hnew g (List.mem_cons_of_mem f hg)
      rw [List.flatMap_cons, List.append_assoc, List.cons_append]
      exact readMembers_cons (nextName_further r f _) (hnew f List.mem_cons_self)
        (endsNumber_members r fields rest) fun c ↦
          ih (Nat.lt_of_succ_lt_succ hsteps) hnodup.2 (lookup_cons_none hnodup.1 hfields c)

theorem readMembers_first (r : Report Float) {f : Field} {fields : List Field} {steps : Nat}
    (hsteps : (f :: fields).length < steps) (hnodup : (f :: fields).Nodup) :
    readMembers steps true [] (commaJoined ((f :: fields).map (renderField r)) ++ closed rest) =
      (fun contents ↦ (contents.reverse, rest)) <$> rereadFields r (f :: fields) := by
  cases steps with
  | zero => exact absurd hsteps (Nat.not_lt_zero _)
  | succ steps =>
    rw [List.nodup_cons] at hnodup
    rw [List.map_cons, commaJoined_cons, List.flatMap_map, List.append_assoc]
    have hnone : ∀ g ∈ fields, List.lookup g ([] : Contents) = none := fun _ _ ↦ rfl
    have hmembers := readMembers_cons (nextName_first r f _) rfl (endsNumber_members r fields rest)
      fun c ↦ readMembers_further r (Nat.lt_of_succ_lt_succ hsteps) hnodup.2
        (lookup_cons_none hnodup.1 hnone c)
    simpa using hmembers

/-! ## Reports -/

/-- What becomes of a report that is written and read again. -/
def rereadReport (r : Report Float) : Except DocumentFault (Report Float) := do
  let usage ← reread r.measures.usage
  let cost ← reread r.measures.cost
  return { r with measures := ⟨usage, cost⟩ }

/-- The contents of all fields, each with its field. -/
def contentsOf (r : Report Float) : Contents := Field.all.map fun f ↦ (f, r.content f)

theorem rereadFields_all (r : Report Float) :
    rereadFields r Field.all = contentsOf <$> rereadReport r := by
  rw [rereadFields, rereadReport]
  simp only [Field.all, List.mapM_cons, List.mapM_nil, Report.content, rereadContent]
  cases reread r.measures.usage with
  | error fault => rfl
  | ok usage => cases reread r.measures.cost <;> rfl

/-- A report is put together again from the contents of its fields. -/
theorem ofContents?_content (r : Report Float) :
    Report.ofContents? (fun f ↦ some (r.content f)) = some r := by
  have hword : ∀ n : UInt32, UInt32.ofInt n.toNat = n := by
    intro n
    have hlt : n.toNat < 2 ^ 32 := n.toNat_lt
    rw [UInt32.ofInt, Int.emod_eq_of_lt (by omega) (by omega), Int.toNat_natCast,
      UInt32.ofNat_toNat]
  change some (⟨⟨r.id.digest⟩, ⟨r.line.provider, r.line.account, r.line.service, r.line.region⟩,
    r.accountName, ⟨.ofInt r.period.day.toNat, .ofInt r.period.month.toNat,
    .ofInt r.period.year.toInt⟩, r.unit, ⟨r.measures.usage, r.measures.cost⟩⟩ : Report Float) =
      some r
  rw [hword, hword, Int32.ofInt_toInt]

theorem reportOf_contentsOf (r : Report Float) : reportOf (contentsOf r).reverse = .ok r := by
  have hlookup : (fun f ↦ (contentsOf r).reverse.lookup f) = fun f ↦ some (r.content f) := by
    funext f
    cases f <;> rfl
  rw [reportOf, hlookup, ofContents?_content]

/-- The bytes of a report from its brace on. -/
def openedReport (r : Report Float) (more : List UInt8) : List UInt8 :=
  byteOf '\x7b' :: (commaJoined (Field.all.map (renderField r)) ++ closed more)

theorem length_le_commaJoined (parts : List (List UInt8)) :
    parts.length ≤ (commaJoined parts).length + 1 := by
  cases parts with
  | nil => exact Nat.zero_le _
  | cons part parts =>
    have hparts : parts.length ≤ (parts.flatMap (byteOf ',' :: ·)).length := by
      induction parts with
      | nil => exact Nat.zero_le _
      | cons next parts ih =>
        rw [List.flatMap_cons, List.length_append, List.length_cons, List.length_cons]
        omega
    rw [commaJoined_cons, List.length_append, List.length_cons]
    omega

theorem readReport_openedReport (r : Report Float) (more : List UInt8) :
    readReport (openedReport r more) = (·, more) <$> rereadReport r := by
  have hsteps : Field.all.length <
      (commaJoined (Field.all.map (renderField r)) ++ closed more).length.succ := by
    have hparts := length_le_commaJoined (Field.all.map (renderField r))
    have hclosed : (closed more).length = 4 + more.length := List.length_append
    rw [List.length_map] at hparts
    rw [List.length_append]
    omega
  have hmembers : readMembers
        (commaJoined (Field.all.map (renderField r)) ++ closed more).length.succ true []
        (commaJoined (Field.all.map (renderField r)) ++ closed more) =
      (fun contents ↦ (contents.reverse, more)) <$> rereadFields r Field.all :=
    readMembers_first r hsteps (by decide)
  have hbracket : byteOf '\x7b' ≠ byteOf '[' := by decide
  rw [readReport, openedReport, skipGap_cons (by decide)]
  simp only [if_neg hbracket, if_true]
  rw [hmembers, rereadFields_all]
  cases rereadReport r with
  | error fault => rfl
  | ok reread =>
    change (do return (← reportOf (contentsOf reread).reverse, more)) = _
    rw [reportOf_contentsOf]
    rfl

theorem skipGap_renderReport (r : Report Float) (more : List UInt8) :
    skipGap (renderReport r ++ more) = openedReport r more := by
  have hbytes : renderReport r ++ more = Utf8.encode "\n  " ++ openedReport r more := by
    simp [renderReport, openedReport, closed]
    rfl
  have hgap : ∀ b ∈ Utf8.encode "\n  ", isGap b := by decide +kernel
  rw [hbytes, skipGap, List.dropWhile_append_of_pos hgap]
  exact skipGap_cons (by decide)

theorem nextElement_first (r : Report Float) (more : List UInt8) :
    nextElement true (renderReport r ++ more) = .ok (some (openedReport r more)) := by
  rw [nextElement, skipGap_renderReport]
  rfl

theorem nextElement_further (r : Report Float) (more : List UInt8) :
    nextElement false (byteOf ',' :: (renderReport r ++ more)) =
      .ok (some (openedReport r more)) := by
  have hcomma : skipGap (byteOf ',' :: (renderReport r ++ more)) =
      byteOf ',' :: (renderReport r ++ more) := skipGap_cons (by decide)
  rw [nextElement, hcomma]
  simp only [skipGap_renderReport]
  rfl

/-- The end of a document. -/
def ending : List UInt8 := Utf8.encode "\n]"

/-- The reports of a document are read to what becomes of them, if those after the first are. -/
theorem readReports_cons {first : Bool} {bs more : List UInt8} {r : Report Float}
    {reports : List (Report Float)} {steps : Nat}
    (hnext : nextElement first bs = .ok (some (openedReport r more)))
    (hfurther : readReports steps false more = (·, []) <$> reports.mapM rereadReport) :
    readReports (steps + 1) first bs = (·, []) <$> (r :: reports).mapM rereadReport := by
  rw [readReports, hnext]
  simp only [bind, Except.bind, readReport_openedReport, List.mapM_cons]
  cases rereadReport r with
  | error fault => rfl
  | ok reread =>
    change (readReports steps false more >>=
      fun later ↦ .ok (reread :: later.1, later.2)) = _
    rw [hfurther]
    cases reports.mapM rereadReport <;> rfl

theorem readReports_further {reports : List (Report Float)} {steps : Nat}
    (hsteps : reports.length < steps) :
    readReports steps false (reports.flatMap (fun r ↦ byteOf ',' :: renderReport r) ++ ending) =
      (·, []) <$> reports.mapM rereadReport := by
  induction reports generalizing steps with
  | nil =>
    cases steps with
    | zero => exact absurd hsteps (lt_irrefl 0)
    | succ steps => rfl
  | cons r reports ih =>
    cases steps with
    | zero => exact absurd hsteps (Nat.not_lt_zero _)
    | succ steps =>
      rw [List.flatMap_cons, List.append_assoc, List.cons_append]
      exact readReports_cons (nextElement_further r _) (ih (Nat.lt_of_succ_lt_succ hsteps))

/-- A state file is read to what becomes of each report that was written to it. -/
theorem read_render (reports : List (Report Float)) :
    read (render reports) = reports.mapM rereadReport := by
  cases reports with
  | nil => rfl
  | cons r reports =>
    let bs := commaJoined ((r :: reports).map renderReport) ++ ending
    have hbytes : render (r :: reports) = byteOf '[' :: bs := by
      rw [render, if_neg (List.cons_ne_nil r reports), List.append_assoc]
      rfl
    have hsteps : reports.length < bs.length := by
      have hparts := length_le_commaJoined ((r :: reports).map renderReport)
      have hending : ending.length = 2 := rfl
      rw [List.length_map, List.length_cons] at hparts
      rw [List.length_append]
      omega
    have hreports : readReports bs.length.succ true bs =
        (·, []) <$> (r :: reports).mapM rereadReport := by
      have hsplit : bs = renderReport r ++
          (reports.flatMap (fun r ↦ byteOf ',' :: renderReport r) ++ ending) := by
        change commaJoined ((r :: reports).map renderReport) ++ ending = _
        rw [List.map_cons, commaJoined_cons, List.flatMap_map, List.append_assoc]
      have hnext := nextElement_first r
        (reports.flatMap (fun r ↦ byteOf ',' :: renderReport r) ++ ending)
      rw [← hsplit] at hnext
      exact readReports_cons hnext (readReports_further hsteps)
    rw [read, hbytes, skipGap_cons (by decide)]
    simp only [if_true, hreports]
    cases (r :: reports).mapM rereadReport <;> rfl

end CloudLedger.StateFile
