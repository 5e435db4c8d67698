import QuickFS.Export.Xattrs

/-!
# Functions without state

Most of what the server does with an open file, or with the fork of a node, neither looks at the
export's state nor names anything: it only asks the host, by descriptor or by node.  `Plain` is
that, and whether something is written is part of it.  Whatever such functions are to be shown to
do, it is enough to look at their questions.
-/

namespace QuickFS.Export

open Server Async

/-- A call that is about an open file or about the server's own files. -/
def HostCall.byFile : HostCall → Bool
  | fstat _ | setLen .. | setPermissions .. | setTimes .. | fsync .. | fallocate .. | readAt ..
  | writeAt .. | append .. | copyFileRange .. | ficlone .. | seek .. | fgetxattr .. | flistxattr ..
  | fsetxattr .. | fremovexattr .. | fstatvfs | statFork _ | openFork .. | removeFork _
  | saveExportRecord _ | newUuid => true
  | dup _ | openat .. | statat .. | readdir .. | mkdirat .. | symlinkat .. | mknodat .. | linkat ..
  | unlinkat .. | renameat .. | readlinkat .. | chmodat .. | utimensat .. => false

variable {F : Frame} {α β : Type} {config : Config} {writes : Prop} {forks : NodeId → Prop}

/-- Made of such calls alone, of calls that change something only if `writes`, and of calls that
create the file of a fork only for `forks`. -/
inductive Plain (writes : Prop) (forks : NodeId → Prop) : {α : Type} → Run F α → Prop
  | pure {α : Type} (a : α) : Plain writes forks (Pure.pure a)
  | throw {α : Type} (error : ServerError) : Plain writes forks (Call.throw error : Run F α)
  | ask {call : HostCall} (hfile : call.byFile = true) (hwrites : call.mutates = true → writes)
      (hforks : ∀ node write, call = .openFork node write true → forks node) :
      Plain writes forks (host call)
  | bind {α β : Type} {m : Run F β} {f : β → Run F α} (hm : Plain writes forks m)
      (hf : ∀ b, Plain writes forks (f b)) : Plain writes forks (m >>= f)
  | attempt {α : Type} {m : Run F α} (hm : Plain writes forks m) :
      Plain writes forks (Call.attempt m)

/-! ## Rules -/

section Rules

variable {call : HostCall} {read : call.Answer → Except Errno α}

theorem plain_system (hfile : call.byFile = true) (hwrites : call.mutates = true → writes)
    (hforks : ∀ node write, call = .openFork node write true → forks node) :
    Plain writes forks (system call read : Run F α) := by
  refine .bind (.ask hfile hwrites hforks) fun answer => ?_
  split
  · exact .pure _
  · exact .throw _

/-- A call that changes nothing. -/
theorem plain_query (h : (call.byFile, call.mutates) = (true, false)) :
    Plain writes forks (system call read : Run F α) := by
  rw [Prod.mk.injEq] at h
  refine plain_system h.1 (fun hm => ?_) fun node write hcall => ?_
  · rw [h.2] at hm
    cases hm
  · rw [hcall] at h
    cases h.2

theorem plain_ofExcept {r : Except ServerError α} : Plain writes forks (Call.ofExcept r : Run F α) := by
  cases r with
  | ok a => exact .pure a
  | error e => exact .throw e

theorem plain_provided {condition : Bool} {m : Run F Unit} (h : Plain writes forks m) :
    Plain writes forks (provided condition m) := by
  rw [provided]
  split
  · exact h
  · exact .pure _

theorem plain_optionally {value : Option β} {m : β → Run F Unit}
    (h : ∀ b, Plain writes forks (m b)) : Plain writes forks (optionally value m) := by
  cases value with
  | some b => exact h b
  | none => exact .pure _

end Rules

/-! ## Contents -/

section Contents

variable (file : Fd) (passes offset length : ℕ)

theorem plain_readAllFrom :
    Plain (F := F) writes forks (readAllFrom file passes offset length) := by
  induction passes generalizing offset length with
  | zero => exact .pure _
  | succ _ ih =>
    rw [readAllFrom]
    split
    · exact .pure _
    refine (plain_query (by rfl)).bind fun chunk => ?_
    split
    · exact .throw _
    · exact (ih _ _).bind fun _ => .pure _

theorem plain_readAllAt : Plain (F := F) writes forks (readAllAt file offset length) :=
  plain_readAllFrom file _ _ _

theorem plain_readUpTo : Plain (F := F) writes forks (readUpTo file passes offset length) := by
  induction passes generalizing offset length with
  | zero => exact .pure _
  | succ _ ih =>
    rw [readUpTo]
    split
    · exact .pure _
    refine (plain_query (by rfl)).bind fun chunk => ?_
    split
    · exact .pure _
    · exact (ih _ _).bind fun _ => .pure _

theorem plain_readConsistent :
    Plain writes forks (readConsistent config file offset length :
      Run F (FileRevision × Bytes)) := by
  refine (plain_query (by rfl)).bind fun before => (plain_readUpTo file _ _ _).bind fun data =>
    (plain_query (by rfl)).bind fun after => ?_
  split
  · exact .throw _
  · exact .pure _

variable (hwrites : writes)

include hwrites

variable (file input : Fd) (inputOffset : ℕ) (output : Fd) (append : Bool)
  (offset passes outputOffset length : ℕ)

theorem plain_writeAllFrom (offset : ℕ) (data : Bytes) :
    Plain writes forks (writeAllFrom file append passes offset data : Run F Unit) := by
  induction passes generalizing offset data with
  | zero => exact .pure _
  | succ passes ih =>
    have hrest : ∀ written : ℕ, Plain writes forks (if written = 0 then Call.throw .io
        else writeAllFrom file append passes (saturatingAdd offset written) (data.drop written) :
        Run F Unit) := by
      intro written
      split
      · exact .throw _
      · exact ih _ _
    rw [writeAllFrom]
    split
    · exact .pure _
    split
    · exact (plain_system (by rfl) (fun _ => hwrites) (by nofun)).bind hrest
    · exact (plain_system (by rfl) (fun _ => hwrites) (by nofun)).bind hrest

theorem plain_writeAllAt (data : Bytes) (append : Bool) :
    Plain writes forks (writeAllAt file offset data append : Run F Unit) :=
  plain_writeAllFrom hwrites file append _ _ _

theorem plain_copyBufferedFrom (inputOffset outputOffset length : ℕ) :
    Plain writes forks (copyBufferedFrom input output passes inputOffset outputOffset length :
      Run F Unit) := by
  induction passes generalizing inputOffset outputOffset length with
  | zero => exact .pure _
  | succ _ ih =>
    rw [copyBufferedFrom]
    split
    · exact .pure _
    · exact (plain_readAllAt input _ _).bind fun _ =>
        (plain_writeAllAt hwrites output _ _ _).bind fun _ => ih _ _ _

theorem plain_copyRangeBuffered :
    Plain writes forks (copyRangeBuffered input inputOffset output outputOffset length :
      Run F Unit) :=
  plain_copyBufferedFrom hwrites input output _ _ _ _

theorem plain_copyBackwards (passes remaining : ℕ) :
    Plain writes forks (copyBackwards input inputOffset output outputOffset passes remaining :
      Run F Unit) := by
  induction passes generalizing remaining with
  | zero => exact .pure _
  | succ _ ih =>
    rw [copyBackwards]
    split
    · exact .pure _
    · exact (plain_readAllAt input _ _).bind fun _ =>
        (plain_writeAllAt hwrites output _ _ _).bind fun _ => ih _

theorem plain_copyRangeBufferedOverlap :
    Plain writes forks
      (copyRangeBufferedOverlap input inputOffset output outputOffset length : Run F Unit) := by
  rw [copyRangeBufferedOverlap]
  split
  · exact plain_copyRangeBuffered hwrites _ _ _ _ _
  · exact plain_copyBackwards hwrites _ _ _ _ _ _

theorem plain_copyInKernel (source destination remaining : ℕ) :
    Plain writes forks (copyInKernel input output passes source destination remaining :
      Run F ℕ) := by
  induction passes generalizing source destination remaining with
  | zero => exact .pure _
  | succ _ ih =>
    rw [copyInKernel]
    split
    · exact .pure _
    refine (Plain.ask (by rfl) (by exact fun _ => hwrites) (by nofun)).bind fun answer => ?_
    split
    · split
      · exact .pure _
      · exact (ih _ _ _).bind fun _ => .pure _
    split
    · exact .pure _
    · exact .throw _

theorem plain_cloneWhole (amount : ℕ) :
    Plain writes forks (cloneWhole input inputOffset output outputOffset amount : Run F Bool) := by
  rw [cloneWhole]
  split
  · refine (plain_query (by rfl)).bind fun source => ?_
    split
    · refine (plain_query (by rfl)).bind fun destination => ?_
      split
      · refine (Plain.ask (by rfl) (by exact fun _ => hwrites) (by nofun)).bind fun answer => ?_
        split <;> exact .pure _
      · exact .pure _
    · exact .pure _
  · exact .pure _

theorem plain_copyRangeServer :
    Plain writes forks (copyRangeServer input inputOffset output outputOffset length : Run F ℕ) := by
  refine (plain_query (by rfl)).bind fun stat => ?_
  dsimp only
  split
  · exact .pure _
  refine (plain_cloneWhole hwrites _ _ _ _ _).bind fun cloned => ?_
  split
  · exact .pure _
  refine (plain_query (by rfl)).bind fun source =>
    (plain_query (by rfl)).bind fun destination => ?_
  split
  · exact (plain_copyRangeBufferedOverlap hwrites _ _ _ _ _).bind fun _ =>
      .pure _
  refine (plain_copyInKernel hwrites _ _ _ _ _ _).bind fun copied => ?_
  split
  · exact .pure _
  · exact (plain_copyRangeBuffered hwrites _ _ _ _ _).bind fun _ => .pure _

theorem plain_copyChunksFrom (offset length : ℕ) :
    Plain writes forks (copyChunksFrom input output passes offset length : Run F Unit) := by
  induction passes generalizing offset length with
  | zero => exact .pure _
  | succ _ ih =>
    rw [copyChunksFrom]
    split
    · exact .pure _
    refine (plain_copyRangeServer hwrites _ _ _ _ _).bind fun copied => ?_
    split
    · exact .throw _
    · exact ih _ _

theorem plain_copyRangeInChunks :
    Plain writes forks (copyRangeInChunks input output length : Run F Unit) :=
  plain_copyChunksFrom hwrites input output _ _ _

theorem plain_applyFileChanges (changes : AttributeChanges) :
    Plain writes forks (applyFileChanges file changes : Run F Stat) :=
  (plain_optionally fun _ => plain_system (by rfl) (fun _ => hwrites) (by nofun)).bind fun _ =>
    (plain_optionally fun _ => plain_system (by rfl) (fun _ => hwrites) (by nofun)).bind fun _ =>
      (plain_provided <| plain_system (by rfl) (fun _ => hwrites) (by nofun)).bind fun _ =>
        plain_query (by rfl)

end Contents

/-! ## Attributes -/

section Xattrs

theorem plain_withBuffer {ask : ℕ → Run F (Except Errno α)}
    (hask : ∀ capacity, Plain writes forks (ask capacity)) (maximum doublings capacity : ℕ) :
    Plain writes forks (withBuffer ask maximum doublings capacity) := by
  induction doublings generalizing capacity with
  | zero => exact hask capacity
  | succ _ ih =>
    rw [withBuffer]
    refine (hask capacity).bind fun answer => ?_
    split
    · split
      · exact ih _
      · exact .pure _
    · exact .pure _

variable (file : Fd) (node : NodeId) (name : Name) (maximum inlineMaximum remaining : ℕ)

theorem plain_readFdXattr : Plain (F := F) writes forks (readFdXattr file name maximum) := by
  refine (plain_withBuffer (fun _ => .ask (by rfl) (by exact nofun) (by nofun)) _ _ _).bind
    fun answer => ?_
  split
  · exact .pure _
  · exact .throw _

theorem plain_readFdXattrBounded {file : Fd} {name : Name} {maximum : ℕ} :
    Plain (F := F) writes forks (readFdXattrBounded file name maximum) := by
  rw [readFdXattrBounded]
  split
  · exact .pure _
  refine (plain_withBuffer (fun _ => .ask (by rfl) (by exact nofun) (by nofun)) _ _ _).bind
    fun answer => ?_
  split
  · exact .pure _
  · exact .pure _
  · exact .throw _

theorem plain_listFdXattrs {file : Fd} : Plain (F := F) writes forks (listFdXattrs file) := by
  refine (plain_withBuffer (fun _ => .ask (by rfl) (by exact nofun) (by nofun)) _ _ _).bind
    fun answer => ?_
  split
  · exact .pure _
  · exact .throw _

theorem plain_optionalXattr : Plain (F := F) writes forks (optionalXattr file name) := by
  refine (plain_readFdXattr file name _).attempt.bind fun outcome => ?_
  split
  · exact .pure _
  · exact .pure _
  · exact .throw _

theorem plain_readFdBackupTime : Plain (F := F) writes forks (readFdBackupTime file) := by
  refine (plain_readFdXattr file _ _).attempt.bind fun outcome => ?_
  split
  · split
    · exact .pure _
    · exact .throw _
  · exact .pure _
  · exact .throw _

theorem plain_openResourceFork {node : NodeId} {write create : Bool}
    (hcreate : create = true → writes ∧ forks node) :
    Plain writes forks (openResourceFork node write create : Run F Fd) := by
  have hopen : Plain writes forks (system (.openFork node write create) id : Run F Fd) := by
    refine plain_system (by rfl) (fun h => (hcreate h).1) fun node' write' heq => ?_
    cases heq
    exact (hcreate rfl).2
  refine hopen.bind fun file => (plain_query (by rfl)).bind
    fun metadata => ?_
  split
  · exact .pure _
  · exact .throw _

theorem plain_readResourceForkRange (offset length : ℕ) :
    Plain (F := F) writes forks (readResourceForkRange node offset length) := by
  refine (plain_openResourceFork (by nofun)).attempt.bind fun outcome => ?_
  split
  · exact .throw _
  · exact .throw _
  · exact (plain_query (by rfl)).bind fun _ => (plain_readAllAt _ _ _).bind fun _ =>
      .pure _

theorem plain_resourceForkExists {node : NodeId} :
    Plain writes forks (resourceForkExists node : Run F Bool) := by
  refine (Plain.ask (by rfl) (by exact nofun) (by nofun)).bind fun answer => ?_
  split
  · split
    · exact .pure _
    · exact .throw _
  · exact .pure _
  · exact .throw _

theorem plain_optionalResourceFork : Plain (F := F) writes forks (optionalResourceFork node) := by
  refine (plain_readResourceForkRange node _ _).attempt.bind fun outcome => ?_
  split
  · exact .pure _
  · exact .pure _
  · exact .throw _

theorem plain_forkIsFile {node : NodeId} :
    Plain writes forks (forkIsFile config node : Run F Bool) := by
  rw [forkIsFile]
  split
  · refine (Plain.ask (by rfl) (by exact nofun) (by nofun)).bind fun answer => ?_
    split <;> exact .pure _
  · exact .pure _

theorem plain_enrich (metadata : Metadata) :
    Plain (F := F) writes forks (enrichResourceForkRevision config node metadata) := by
  rw [enrichResourceForkRevision]
  split
  · refine (Plain.ask (by rfl) (by exact nofun) (by nofun)).bind fun answer => ?_
    split <;> exact .pure _
  · exact .pure _

theorem plain_listXattrNames : Plain (F := F) writes forks (listXattrNames config file node) := by
  refine plain_listFdXattrs.bind fun names => plain_forkIsFile.bind fun fork => ?_
  split <;> exact .pure _

theorem plain_inlineValue (name : Name) :
    Plain (F := F) writes forks (inlineValue config file node inlineMaximum name) := by
  rw [inlineValue]
  split
  · split
    · refine (plain_readResourceForkRange node _ _).attempt.bind fun outcome => ?_
      split
      · split <;> exact .pure _
      · exact .pure _
    · exact .pure _
  · split
    · exact .pure _
    · refine plain_readFdXattrBounded.attempt.bind fun outcome => ?_
      split <;> exact .pure _

theorem plain_inlineValues (names : List Name) :
    Plain writes forks (inlineValues config file node inlineMaximum remaining names :
      Run F (List InlineXattr × ℕ)) := by
  induction names generalizing remaining with
  | nil => exact .pure _
  | cons name _ ih =>
    rw [inlineValues]
    refine (plain_inlineValue file node _ name).bind fun value => ?_
    split
    · split
      · exact (ih _).bind fun _ => .pure _
      · exact ih _
    · exact ih _

theorem plain_xattrSnapshotForOpenFile :
    Plain writes forks (xattrSnapshotForOpenFile config file node inlineMaximum remaining :
      Run F (XattrSnapshot × ℕ)) := by
  refine (plain_listXattrNames file node).bind fun names => ?_
  split
  · exact (plain_inlineValues file node _ _ _).bind fun _ => .pure _
  · exact .pure _

variable (hwrites : writes)

include hwrites

theorem plain_replaceOptionalXattr (file : Fd) (name : Name) (value : Option Bytes) :
    Plain writes forks (replaceOptionalXattr file name value : Run F Unit) := by
  cases value with
  | some => exact plain_system (by rfl) (fun _ => hwrites) (by nofun)
  | none =>
    refine (plain_system (by rfl) (fun _ => hwrites) (by nofun)).attempt.bind fun outcome => ?_
    split
    · exact .pure _
    · exact .pure _
    · exact .throw _

theorem plain_writeBackupTime (file : Fd) (value : Option ℕ) :
    Plain writes forks (writeBackupTime file value : Run F Unit) :=
  plain_optionally fun _ => plain_system (by rfl) (fun _ => hwrites) (by nofun)

theorem plain_writeResourceFork {node : NodeId} (hnode : forks node) (value : Bytes)
    (mode : XattrSetMode) (position : ℕ) :
    Plain writes forks (writeResourceFork node value mode position : Run F Unit) := by
  refine plain_resourceForkExists.bind fun isPresent =>
    plain_ofExcept.bind fun _ => ?_
  split
  · exact .throw _
  exact (plain_openResourceFork fun _ => ⟨hwrites, hnode⟩).bind fun file =>
    (plain_provided <| plain_system (by rfl) (fun _ => hwrites) (by nofun)).bind fun _ =>
      plain_writeAllAt hwrites file _ _ _

theorem plain_removeResourceFork (node : NodeId) :
    Plain writes forks (removeResourceFork node : Run F Unit) := by
  refine plain_resourceForkExists.bind fun isPresent => ?_
  split
  · exact plain_system (by rfl) (fun _ => hwrites) (by nofun)
  · exact .throw _

theorem plain_replaceResourceFork {node : NodeId} (hnode : forks node) (value : Option Bytes) :
    Plain writes forks (replaceResourceFork node value : Run F Unit) := by
  cases value with
  | some value => exact plain_writeResourceFork hwrites hnode value _ _
  | none =>
    refine (plain_removeResourceFork hwrites node).attempt.bind fun outcome => ?_
    split
    · exact .pure _
    · exact .pure _
    · exact .throw _

theorem plain_exchangeResourceForks {left right : NodeId} (hleft : forks left)
    (hright : forks right) :
    Plain writes forks (exchangeResourceForks left right : Run F Unit) := by
  refine (plain_optionalResourceFork left).bind fun leftValue =>
    (plain_optionalResourceFork right).bind fun rightValue =>
      (plain_replaceResourceFork hwrites hleft rightValue).bind fun _ =>
        (plain_replaceResourceFork hwrites hright leftValue).attempt.bind fun outcome => ?_
  split
  · exact .pure _
  · exact (plain_replaceResourceFork hwrites hleft leftValue).attempt.bind fun _ => .throw _

theorem plain_exchangeFileContents (left right temporary : Fd) :
    Plain writes forks (exchangeFileContents left right temporary : Run F Unit) :=
  (plain_query (by rfl)).bind fun _ => (plain_query (by rfl)).bind fun _ =>
  (plain_system (by rfl) (fun _ => hwrites) (by nofun)).bind fun _ =>
  (plain_copyRangeInChunks hwrites _ _ _).bind fun _ =>
  (plain_system (by rfl) (fun _ => hwrites) (by nofun)).bind fun _ =>
  (plain_copyRangeInChunks hwrites _ _ _).bind fun _ =>
  (plain_system (by rfl) (fun _ => hwrites) (by nofun)).bind fun _ =>
  (plain_copyRangeInChunks hwrites _ _ _).bind fun _ =>
  plain_ofExcept.bind fun _ =>
  (plain_optionalXattr _ _).bind fun _ => (plain_optionalXattr _ _).bind fun _ =>
  (plain_replaceOptionalXattr hwrites _ _ _).bind fun _ =>
  (plain_replaceOptionalXattr hwrites _ _ _).bind fun _ =>
  (plain_query (by rfl)).bind fun _ => plain_query (by rfl)

end Xattrs

end QuickFS.Export
