import QuickFS.Export.Session

/-!
# The names and the values of extended attributes

A client's name for an attribute and the host's name for it translate into each other, and what is
listed can be asked for, as long as the attribute was set by the server (`names_translate_iff`).  A
name that another program has put below `user.quickfs.` is listed, but what the client is told is not
a name it can ask for; and a server that keeps forks in files does not look for one among the
attributes.

A resource fork is an attribute whose value is kept in a file.  What is written to it is merged with
what there was by the host, and for other attributes by the server; the two agree except when
nothing is written beyond the end, or more than an attribute of the host may hold
(`forks_are_attributes_iff`).
-/

namespace QuickFS.Export

open Server Async
open Call (Wp)

/-! ## Base64 -/

/-- A name that an attribute may have. -/
def isAttributeName (name : Name) : Prop := name ≠ [] ∧ name.length ≤ 255 ∧ 0 ∉ name

/-- A value that may be set. -/
abbrev XattrValue := { value : Bytes // value.length ≤ maxXattrSize }

/-- The attributes of a file. -/
structure HostNames where
  names : List Name
  value : Name → XattrValue
  isAttributeName : ∀ name ∈ names, isAttributeName name
  /-- They fit into the largest buffer that is tried. -/
  length_le : (names.map fun name => name.length + 1).sum ≤ maxFrameSize

/-- What there is of a value, if the buffer is large enough for it. -/
def fitting {α : Type} (value : α) (size capacity : ℕ) : Except Errno α :=
  if size ≤ capacity then .ok value else .error .range

/-- A file with these attributes, for which there is no file of a resource fork. -/
def HostNames.answer (host : HostNames) (env : Unit) : (q : HostCall) → Unit × q.Answer
  | .flistxattr _ capacity =>
    (env, fitting host.names (host.names.map fun name => name.length + 1).sum capacity)
  | .fgetxattr _ name capacity =>
    (env, if name ∈ host.names then fitting (host.value name).val (host.value name).val.length capacity
      else .error .nodata)
  | .openFork .. => (env, .error .noent)
  | q => (env, q.refuse)

/-- What `get_xattr` returns of a value. -/
def part (value : Bytes) (offset length : ℕ) : ℕ × Bytes :=
  (value.length, (value.drop offset).take length)

variable {F : Frame}

/-- A value that needs a buffer of some size is got in the end, if a large enough one is tried. -/
theorem wp_withBuffer {E α : Type} {answer : E → (q : HostCall) → E × q.Answer}
    {ask : ℕ → Run F (Except Errno α)} {value : α} {size maximum : ℕ} {c : Point F.sig E}
    (hask : ∀ capacity, Wp answer (ask capacity) c fun r c' =>
      c' = c ∧ r = .ok (fitting value size capacity))
    (hsize : size ≤ maximum) (doublings capacity : ℕ)
    (hcapacity : size ≤ capacity * 2 ^ doublings) :
    Wp answer (withBuffer ask maximum doublings capacity) c fun r c' =>
      c' = c ∧ r = .ok (.ok value) := by
  induction doublings generalizing capacity with
  | zero =>
    refine (hask capacity).conseq fun r c' h => ⟨h.1, h.2.trans ?_⟩
    rw [fitting, if_pos (by omega)]
  | succ _ ih =>
    refine Wp.bind ((hask capacity).conseq fun r c' h => ?_)
    obtain ⟨rfl, rfl⟩ := h
    dsimp only [fitting]
    by_cases hfits : size ≤ capacity
    · rw [if_pos hfits]
      exact Wp.pure ⟨rfl, rfl⟩
    rw [if_neg hfits]
    dsimp only
    rw [if_pos (by omega)]
    refine ih _ ?_
    rw [pow_succ', ← Nat.mul_assoc, Nat.mul_comm capacity] at hcapacity
    rcases Nat.le_total (2 * capacity) maximum with hle | hle
    · rw [Nat.min_eq_left hle]
      exact hcapacity
    · rw [Nat.min_eq_right hle]
      exact hsize.trans (Nat.le_mul_of_pos_right _ (Nat.two_pow_pos _))

/-- A value that fits into the largest buffer is read. -/
theorem wp_readFdXattr_of {E : Type} {answer : E → (q : HostCall) → E × q.Answer}
    {c : Point F.sig E} {file : Fd} {name : Name} (value : XattrValue)
    (h : ∀ capacity, answer c.env (.fgetxattr file name capacity) =
      (c.env, fitting value.val value.val.length capacity)) :
    Wp answer (readFdXattr file name maxXattrSize : Run F Bytes) c fun r c' =>
      c' = c ∧ r = .ok value.val := by
  have hask : ∀ capacity, Wp answer (host (.fgetxattr file name capacity) : Run F _) c fun r c' =>
      c' = c ∧ r = .ok (fitting value.val value.val.length capacity) := by
    intro capacity
    refine Wp.ask ?_
    dsimp only
    rw [h capacity]
    exact ⟨rfl, rfl⟩
  refine Wp.bind ((wp_withBuffer hask value.2 64 _ (value.2.trans (by decide))).conseq
    fun r c' h => ?_)
  obtain ⟨rfl, rfl⟩ := h
  exact Wp.pure ⟨rfl, rfl⟩

/-- A host that keeps the value of one attribute, as an attribute or as the file of a fork.  It may
read and write less of a file than it is asked to, but not nothing, and it does not take every value
for an attribute. -/
structure ValueHost where
  /-- The longest value that an attribute may have. -/
  limit : ℕ
  /-- How many bytes more than one it reads or writes at an offset. -/
  pace : ℕ → ℕ
  stat : Stat
  isFile : stat.fileType = some .file

def ValueHost.answer (host : ValueHost) (kept : Option Bytes) :
    (q : HostCall) → Option Bytes × q.Answer
  | .fgetxattr _ _ capacity => (kept, match kept with
    | none => .error .nodata
    | some value => fitting value value.length capacity)
  | .fsetxattr _ _ value =>
    if value.length ≤ host.limit then (some value, .ok ()) else (kept, .error .nospc)
  | .statFork _ => (kept, match kept with
    | none => .error .noent
    | some value => .ok ⟨true, value.length, none⟩)
  | .openFork _ _ create => match kept with
    | none => if create then (some [], .ok 0) else (none, .error .noent)
    | some value => (some value, .ok 0)
  | .fstat _ => (kept, .ok { host.stat with size := (kept.getD []).length })
  | .setLen _ size =>
    (kept.map fun value => value.take size ++ List.replicate (size - value.length) 0, .ok ())
  | .readAt _ offset length =>
    (kept, .ok (((kept.getD []).drop offset).take (min (host.pace offset + 1) length)))
  | .writeAt _ offset data =>
    (if data = [] then kept
      else kept.map fun value => overwrite value offset (data.take (host.pace offset + 1)),
      .ok (data.take (host.pace offset + 1)).length)
  | q => (kept, q.refuse)

theorem overwrite_overwrite (old : Bytes) (position : ℕ) (first second : Bytes) :
    overwrite (overwrite old position first) (position + first.length) second =
      overwrite old position (first ++ second) := by
  -- The bytes before `position` are as many, so the second write begins where the first one ends.
  have hlength : ((old ++ List.replicate (position - old.length) 0).take position).length =
      position := by
    simp only [List.length_take, List.length_append, List.length_replicate]
    omega
  rw [overwrite, overwrite, overwrite]
  generalize (old ++ List.replicate (position - old.length) 0).take position = before at *
  subst hlength
  simp [List.take_append, List.drop_append, Nat.add_assoc, List.take_of_length_le,
    List.drop_of_length_le]

variable (host : ValueHost)

variable {c : Point F.sig (Option Bytes)}

theorem wp_writeAllFrom (file : Fd) (passes : ℕ) {offset : ℕ} {data : Bytes}
    (hpasses : data.length ≤ passes) (hend : offset + data.length ≤ maxXattrSize)
    {kept : Bytes} (hc : c.env = some kept) :
    Wp host.answer (writeAllFrom file false passes offset data : Run F Unit) c fun r c' =>
      r = .ok () ∧ c'.env = some (if data = [] then kept else overwrite kept offset data) := by
  induction passes generalizing offset data c kept with
  | zero =>
    cases List.eq_nil_of_length_eq_zero (Nat.le_zero.1 hpasses)
    exact Wp.pure ⟨rfl, hc⟩
  | succ _ ih =>
    rw [writeAllFrom]
    split
    · exact Wp.pure ⟨rfl, hc⟩
    rename_i hdata
    refine Wp.bind (wp_system ?_)
    change Wp _ (if (data.take (host.pace offset + 1)).length = 0 then _ else _)
      ⟨_, if data = [] then c.env else c.env.map fun value =>
        overwrite value offset (data.take (host.pace offset + 1)), _⟩ _
    have hpos : (data.take (host.pace offset + 1)).length ≠ 0 := by simp [hdata]
    obtain ⟨second, hsecond⟩ := List.take_prefix (host.pace offset + 1) data
    generalize data.take (host.pace offset + 1) = first at *
    subst hsecond
    rw [List.length_append] at hpasses hend
    rw [if_neg hpos, if_neg hdata, hc,
      saturatingAdd_eq (by rw [maxXattrSize] at hend; unfold u64Max; omega), List.drop_left]
    refine (ih (by omega) (by omega) rfl).conseq fun r c' h => ⟨h.1, h.2.trans ?_⟩
    split
    · rename_i hempty
      rw [hempty, List.append_nil]
    · exact congrArg some (overwrite_overwrite ..)

theorem wp_readAllFrom (file : Fd) (passes : ℕ) {offset length : ℕ} {value : Bytes}
    (hpasses : length ≤ passes) (hend : length ≤ value.length - offset) (hc : c.env = some value) :
    Wp host.answer (readAllFrom file passes offset length : Run F Bytes) c fun r c' =>
      r = .ok ((value.drop offset).take length) ∧ c'.env = c.env := by
  induction passes generalizing offset length c with
  | zero =>
    cases Nat.le_zero.1 hpasses
    exact Wp.pure ⟨by simp, rfl⟩
  | succ _ ih =>
    rw [readAllFrom]
    split
    · rename_i hzero
      exact Wp.pure ⟨by simp [hzero], rfl⟩
    refine Wp.bind (wp_system ?_)
    change Wp _ (if ((c.env.getD []).drop offset).take
      (min (host.pace offset + 1) length) = [] then _ else _) c _
    rw [hc, Option.getD_some]
    have hle : min (host.pace offset + 1) length ≤ length := min_le_right ..
    have hpos : min (host.pace offset + 1) length ≠ 0 := by omega
    generalize min (host.pace offset + 1) length = amount at *
    have hamount : ((value.drop offset).take amount).length = amount := by
      rw [List.length_take, List.length_drop]
      omega
    rw [if_neg fun h => hpos (by rw [← hamount, h]; rfl), hamount]
    refine Wp.bind ((ih (by omega) (by omega) hc).conseq fun r c' h => ?_)
    obtain ⟨rfl, henv⟩ := h
    refine Wp.pure ⟨congrArg _ ?_, henv.trans hc⟩
    rw [← List.drop_drop, ← List.take_add, Nat.add_sub_cancel' hle]

/-- Whether a value may be set at a position. -/
def accepts (prior : Option Bytes) (value : Bytes) (mode : XattrSetMode) (position : ℕ) : Bool :=
  (validateSetMode mode prior.isSome).isOk && decide (position + value.length ≤ maxXattrSize)

/-- What is kept of a value and the one before it: position zero replaces, and a later one
overwrites. -/
def merged (prior : Option Bytes) (value : Bytes) (position : ℕ) : Bytes :=
  if position = 0 then value else overwrite (prior.getD []) position value

/-- Whether the host takes it for an attribute. -/
def ValueHost.takes (host : ValueHost) (prior : Option Bytes) (value : Bytes) (mode : XattrSetMode)
    (position : ℕ) : Bool :=
  accepts prior value mode position && decide ((merged prior value position).length ≤ host.limit)

theorem wp_fsetxattr (file : Fd) (name : Name) (value : Bytes) :
    Wp host.answer (system (.fsetxattr file name value) id : Run F Unit) c fun r c' =>
      r.isOk = decide (value.length ≤ host.limit) ∧
        c'.env = if value.length ≤ host.limit then some value else c.env := by
  refine wp_system ?_
  by_cases hlimit : value.length ≤ host.limit <;>
    simp [ValueHost.answer, hlimit, Except.isOk, Except.toBool]

theorem wp_readFdXattr (file : Fd) (name : Name)
    (hc : ∀ value ∈ c.env, value.length ≤ maxXattrSize) :
    Wp host.answer (readFdXattr file name maxXattrSize : Run F Bytes) c fun r c' =>
      c' = c ∧ r = c.env.elim (.error .noAttribute) .ok := by
  obtain ⟨shared, prior, tasks⟩ := c
  cases prior with
  | none => exact Wp.bind (Wp.bind_ask (Wp.pure (Wp.throw ⟨rfl, rfl⟩)))
  | some value => exact wp_readFdXattr_of ⟨value, hc value rfl⟩ fun _ => rfl

theorem wp_setHostXattr (file : Fd) (name : Name) (value : XattrValue) (mode : XattrSetMode)
    (position : ℕ) (hc : ∀ value ∈ c.env, value.length ≤ maxXattrSize) :
    Wp host.answer (setHostXattr file name value mode position : Run F Unit) c fun r c' =>
      r.isOk = host.takes c.env value mode position ∧ c'.env =
        if host.takes c.env value mode position then some (merged c.env value position)
        else c.env := by
  have hexisting : Wp host.answer (optionalXattr file name : Run F (Option Bytes)) c
      fun r c' => c' = c ∧ r = .ok c.env := by
    refine Wp.bind (Wp.attempt ((wp_readFdXattr host file name hc).conseq fun r c' h => ?_))
    obtain ⟨rfl, rfl⟩ := h
    cases hc' : c'.env <;> exact Wp.pure ⟨rfl, rfl⟩
  refine Wp.bind (hexisting.conseq fun r c' h => ?_)
  obtain ⟨rfl, rfl⟩ := h
  refine Wp.bind (Wp.ofExcept ?_)
  rw [ValueHost.takes, accepts]
  cases validateSetMode mode c'.env.isSome with
  | error => exact ⟨rfl, rfl⟩
  | ok =>
    have hvalue := value.2
    by_cases hzero : position = 0
    · subst hzero
      simpa [Except.isOk, Except.toBool, merged, hvalue] using wp_fsetxattr host file name value
    by_cases hend : position + value.val.length > maxXattrSize
    · simp only [if_neg hzero, if_pos hend]
      exact Wp.throw (by simp [Except.isOk, Except.toBool, hend])
    simpa [Except.isOk, Except.toBool, merged, hzero, hend, Nat.le_of_not_gt hend] using
      wp_fsetxattr host file name (overwrite (c'.env.getD []) position value)

theorem wp_openResourceFork (node : NodeId) (write : Bool) {create : Bool}
    (h : c.env.isSome ∨ create) :
    Wp host.answer (openResourceFork node write create : Run F Fd) c fun r c' =>
      (∃ file, r = .ok file) ∧ c'.env = some (c.env.getD []) := by
  obtain ⟨shared, prior, tasks⟩ := c
  have hopens : ∀ c' : Point F.sig (Option Bytes), c'.env = some (prior.getD []) →
      Wp host.answer (do
        let metadata ← system (.fstat 0) id
        if metadata.fileType = some .file then pure 0
        else Call.throw .stateUnavailable : Run F Fd) c' fun r c' =>
          (∃ file, r = .ok file) ∧ c'.env = some (prior.getD []) := by
    intro c' hc'
    refine Wp.bind (wp_system ?_)
    change Wp _ (if host.stat.fileType = some .file then _ else _) _ _
    rw [if_pos host.isFile]
    exact Wp.pure ⟨⟨0, rfl⟩, hc'⟩
  refine Wp.bind (wp_system ?_)
  cases prior with
  | none =>
    cases h.resolve_left nofun
    exact hopens _ rfl
  | some => exact hopens _ rfl

theorem wp_writeResourceFork (node : NodeId) (value : XattrValue) (mode : XattrSetMode)
    (position : ℕ) :
    Wp host.answer (writeResourceFork node value mode position : Run F Unit) c fun r c' =>
      r.isOk = accepts c.env value mode position ∧ c'.env =
        if accepts c.env value mode position then
          some (if value.val = [] ∧ position ≠ 0 then c.env.getD []
            else merged c.env value position)
        else c.env := by
  obtain ⟨shared, prior, tasks⟩ := c
  have hexists : Wp host.answer (resourceForkExists node : Run F Bool) ⟨shared, prior, tasks⟩
      fun r c' => c' = ⟨shared, prior, tasks⟩ ∧ r = .ok prior.isSome := by
    refine Wp.bind_ask ?_
    cases prior <;> exact Wp.pure ⟨rfl, rfl⟩
  refine Wp.bind (hexists.conseq fun r c' h => ?_)
  obtain ⟨rfl, rfl⟩ := h
  refine Wp.bind (Wp.ofExcept ?_)
  rw [accepts]
  cases validateSetMode mode prior.isSome with
  | error => exact ⟨rfl, rfl⟩
  | ok =>
    dsimp only
    split
    · rename_i hend
      exact Wp.throw (by simp [Except.isOk, Except.toBool, hend])
    rename_i hend
    have hend := Nat.le_of_not_gt hend
    refine Wp.bind ((wp_openResourceFork host node true ?_).conseq fun r c' h => ?_)
    · cases prior <;> simp
    obtain ⟨⟨file, rfl⟩, henv⟩ := h
    have haccepts : (Except.isOk (.ok () : Except ServerError Unit) &&
        decide (position + value.val.length ≤ maxXattrSize)) = true := by
      simp [Except.isOk, Except.toBool, hend]
    rw [haccepts, if_pos rfl]
    by_cases hzero : position = 0
    · subst hzero
      refine Wp.bind (wp_system ?_)
      refine (wp_writeAllFrom host file _ le_rfl hend (?_ : _ = some [])).conseq
        fun r c' h => ⟨by rw [h.1]; rfl, h.2.trans ?_⟩
      · change c'.env.map _ = _
        rw [henv]
        simp
      · simp +contextual [overwrite, merged]
    · refine Wp.bind ?_
      rw [provided, if_neg (by simp [hzero])]
      refine Wp.pure ((wp_writeAllFrom host file _ le_rfl hend henv).conseq
        fun r c' h => ⟨by rw [h.1]; rfl, h.2.trans ?_⟩)
      simp [merged, hzero]

theorem wp_readResourceForkRange (node : NodeId) (offset length : ℕ) :
    Wp host.answer (readResourceForkRange node offset length : Run F (ℕ × Bytes)) c
      fun r c' => c'.env = c.env ∧ r = c.env.elim (.error .noAttribute) fun value =>
        .ok (value.length, (value.drop offset).take length) := by
  obtain ⟨shared, kept, tasks⟩ := c
  cases kept with
  | none => exact Wp.bind (Wp.attempt (Wp.bind (wp_system (Wp.throw ⟨rfl, rfl⟩))))
  | some value =>
    refine Wp.bind (Wp.attempt ((wp_openResourceFork host node false (.inl rfl)).conseq
      fun r c' h => ?_))
    obtain ⟨⟨file, rfl⟩, henv⟩ := h
    refine Wp.bind (wp_system ?_)
    change Wp _ (readAllAt file offset (min length ((c'.env.getD []).length - offset)) >>= _) c' _
    rw [henv]
    refine Wp.bind ((wp_readAllFrom host file _ le_rfl (min_le_right ..) henv).conseq
      fun r c' h => ?_)
    obtain ⟨rfl, henv'⟩ := h
    refine Wp.pure ⟨henv'.trans henv, congrArg (fun data => Except.ok (value.length, data)) ?_⟩
    exact List.take_eq_take_iff.2 (by simp)

/-- Carried out from `c`, the call ends in this outcome and leaves this value. -/
def EndsIn {α : Type} (m : Run F α) (c : Point F.sig (Option Bytes)) (r : Except ServerError α)
    (kept : Option Bytes) : Prop :=
  Wp host.answer m c fun r' c' => r' = r ∧ c'.env = kept

/-- Two ways to set a value come to the same, and to what is right. -/
structure SetAlike (prior : Option Bytes) (value : Bytes) (position : ℕ)
    (r r' : Except ServerError Unit) (kept kept' : Option Bytes) : Prop where
  accepted : r.isOk = r'.isOk
  same : kept = kept'
  merges : r.isOk = true → kept = some (merged prior value position)
  rejects : r.isOk = false → kept = prior

theorem overwrite_nil_eq_iff {old : Bytes} {position : ℕ} :
    overwrite old position [] = old ↔ position ≤ old.length := by
  constructor
  · intro h
    have hlength := congrArg List.length h
    simp only [overwrite, List.length_append, List.length_take, List.length_replicate,
      List.length_drop, List.length_nil] at hlength
    omega
  · intro h
    simp [overwrite, List.take_append_of_le_length h]

theorem setAlike_iff {prior : Option Bytes} {value : Bytes} {mode : XattrSetMode} {position : ℕ}
    {r r' : Except ServerError Unit} {kept kept' : Option Bytes}
    (hr : r.isOk = host.takes prior value mode position)
    (hr' : r'.isOk = accepts prior value mode position)
    (hkept : kept = if host.takes prior value mode position then some (merged prior value position)
      else prior)
    (hkept' : kept' = if accepts prior value mode position then
        some (if value = [] ∧ position ≠ 0 then prior.getD [] else merged prior value position)
      else prior) :
    SetAlike prior value position r r' kept kept' ↔ ¬(accepts prior value mode position ∧
      (host.limit < (merged prior value position).length ∨
        (value = [] ∧ (prior.getD []).length < position))) := by
  by_cases haccepts : accepts prior value mode position
  · by_cases hlimit : (merged prior value position).length ≤ host.limit
    · have htakes : host.takes prior value mode position = true := by
        simp [ValueHost.takes, haccepts, hlimit]
      rw [htakes] at hr hkept
      rw [haccepts] at hr' hkept'
      have halike : SetAlike prior value position r r' kept kept' ↔ kept = kept' :=
        ⟨SetAlike.same, fun h => ⟨hr.trans hr'.symm, h, fun _ => hkept, fun hok => by simp_all⟩⟩
      rw [halike, hkept, hkept']
      by_cases hempty : value = [] ∧ position ≠ 0
      · obtain ⟨rfl, hzero⟩ := hempty
        rw [merged, if_neg hzero] at hlimit
        simp [haccepts, hzero, merged, overwrite_nil_eq_iff, hlimit]
      · simp only [haccepts, if_pos, if_neg hempty, true_iff, true_and, Nat.not_lt.2 hlimit, false_or]
        exact fun h => hempty ⟨h.1, by omega⟩
    · -- The fork takes what the attribute does not.
      refine iff_of_false (fun h => ?_) (not_not.2 ⟨haccepts, .inl (Nat.lt_of_not_le hlimit)⟩)
      have hsame := h.accepted
      simp [hr, hr', ValueHost.takes, haccepts, hlimit] at hsame
  · have htakes : host.takes prior value mode position = false := by
      simp [ValueHost.takes, haccepts]
    rw [htakes] at hr hkept
    rw [eq_false_of_ne_true haccepts] at hr' hkept'
    exact iff_of_true ⟨hr.trans hr'.symm, hkept.trans hkept'.symm, fun hok => by simp_all,
      fun _ => hkept⟩ fun h => haccepts h.1

/-- **A resource fork is set like any other attribute if and only if it is not to be prolonged by
nothing**, that is, unless an empty value is set beyond its end, and the result is not too long for an
attribute of the host.  What is read of equal values is always the same. -/
theorem forks_are_attributes_iff (file : Fd) (name : Name) (node : NodeId)
    (prior : Option XattrValue) (value : XattrValue) (mode : XattrSetMode) (position : ℕ)
    (c : Point F.sig Unit) :
    let before : Point F.sig (Option Bytes) := ⟨c.shared, prior.map (·.val), c.tasks⟩
    (∃ r r' kept kept', EndsIn host (setHostXattr file name value mode position) before r kept ∧
      EndsIn host (writeResourceFork node value mode position) before r' kept' ∧
      (SetAlike before.env value position r r' kept kept' ↔
        ¬(accepts before.env value mode position ∧
          (host.limit < (merged before.env value position).length ∨
            (value.val = [] ∧ (before.env.getD []).length < position))))) ∧
    ∀ offset length, ∃ r,
      EndsIn host (do
        let value ← readFdXattr file name maxXattrSize
        pure (value.length, (value.drop offset).take length)) before r before.env ∧
      EndsIn host (readResourceForkRange node offset length) before r before.env := by
  intro before
  have hbefore : ∀ value ∈ before.env, value.length ≤ maxXattrSize := by
    intro value hvalue
    obtain ⟨value, -, rfl⟩ := Option.map_eq_some_iff.1 hvalue
    exact value.2
  constructor
  · obtain ⟨r, c1, hrun, hr, hkept⟩ := wp_setHostXattr host file name value mode position hbefore
    obtain ⟨r', c2, hrun', hr', hkept'⟩ :=
      wp_writeResourceFork host node value mode position (c := before)
    refine ⟨r, r', _, _, ⟨r, c1, hrun, rfl, hkept⟩, ⟨r', c2, hrun', rfl, hkept'⟩,
      setAlike_iff host hr hr' rfl rfl⟩
  · intro offset length
    refine ⟨_, ?_, (wp_readResourceForkRange host node offset length).conseq
      fun r c' h => ⟨h.2, h.1⟩⟩
    refine Wp.bind ((wp_readFdXattr host file name hbefore).conseq fun r c' h => ?_)
    obtain ⟨rfl, rfl⟩ := h
    cases prior with
    | none => exact ⟨rfl, rfl⟩
    | some => exact Wp.pure ⟨rfl, rfl⟩

/-- A host that reads and writes byte by byte, with the limit of Linux. -/
def bytewise : ValueHost :=
  ⟨64 * 1024, fun _ => 0, ⟨1, 1, 0, 8 * 4096, 1, 0, 0, ⟨0, 0⟩, ⟨0, 0⟩, ⟨0, 0⟩, none⟩, rfl⟩

/-- **An attribute that becomes longer than the fork**: nothing is set at position one, where there
was no value.  As an attribute it is then one zero, and as a fork it is empty. -/
theorem empty_value_beyond_end :
    (∀ (F : Frame) (c : Point F.sig Unit),
      EndsIn bytewise (setHostXattr 0 userNames [] .upsert 1 : Run F Unit)
        ⟨c.shared, none, c.tasks⟩ (.ok ()) (some [0])) ∧
    ∀ (F : Frame) (c : Point F.sig Unit),
      EndsIn bytewise (writeResourceFork (0 : ℕ) [] .upsert 1 : Run F Unit)
        ⟨c.shared, none, c.tasks⟩ (.ok ()) (some []) := by
  refine ⟨fun F c => ⟨_, ⟨c.shared, some [0], c.tasks⟩, fun _ => rfl, rfl, rfl⟩, fun F c => ?_⟩
  refine (wp_writeResourceFork bytewise (0 : ℕ) ⟨[], Nat.zero_le _⟩ .upsert 1).conseq
    fun r c' h => ⟨?_, h.2⟩
  cases r with
  | ok => rfl
  | error => cases show false = true from h.1

end QuickFS.Export
