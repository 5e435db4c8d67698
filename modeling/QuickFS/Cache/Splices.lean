import QuickFS.Cache.Books

/-!
# What a splice and a manifest leave of the entries

When an insertion succeeds, what has become of its entries, and what does a manifest give back?

* A splice fails only for its size: if there are few enough entries and the payloads add up to less than
  64 bits can hold, it succeeds (`Accounted.splice_ok`).
* Eviction takes the entries in the order in which they were last used, so an entry goes only if those
  that were used since do not fit without it (`Accounted.evictLoop_evicts`).  What is inserted is never
  evicted at once (`Accounted.splice_evicts`), as long as the clock has not run out.
* A manifest gives back the entries it was made from, in some order (`load_manifest`).
-/

namespace QuickFS.Files

open Files.PersistentState (PreparedEntry insertPrepared evictLoop removeKey splice prepare load loadEntry older)
open List (map_cons mem_cons foldlM_cons filter_append sum_cons)

variable {enc : Encoding} {L : EntryKey → List UInt8 → Prop} {state after : PersistentState}

/-! ## Eviction -/

variable {left : DiskEntry} {entries : Entries EntryKey DiskEntry} {right : DiskEntry}

/-- What the oldest of two entries is, as far as the time goes. -/
theorem lastAccess_le_of_not_older (h : ¬older left right = true) :
    right.lastAccess ≤ left.lastAccess := by
  rw [older, decide_eq_true_eq] at h
  exact Nat.le_of_not_lt fun hlt => h (.inl hlt)

theorem lastAccess_le_of_older (h : older left right = true) :
    left.lastAccess ≤ right.lastAccess := by
  rw [older, decide_eq_true_eq] at h
  rcases h with hlt | ⟨heq, -⟩
  · exact Nat.le_of_lt hlt
  · exact Nat.le_of_eq heq

/-- The entry that is evicted next was not used after any other. -/
theorem oldest_le {p : EntryKey × DiskEntry} (h : PersistentState.oldest entries = some p) :
    ∀ q ∈ entries, p.2.lastAccess ≤ q.2.lastAccess := by
  have hfold : ∀ (rest : Entries EntryKey DiskEntry) (best : EntryKey × DiskEntry),
      ∀ q ∈ best :: rest, (rest.foldl (fun best candidate =>
        if older candidate.2 best.2 then candidate else best) best).2.lastAccess ≤
          q.2.lastAccess := by
    intro rest
    induction rest with
    | nil =>
      intro best q hq
      cases List.mem_singleton.1 hq
      exact Nat.le_refl _
    | cons candidate _ ih =>
      intro best q hq
      rw [List.foldl_cons]
      have hnext := ih (if older candidate.2 best.2 then candidate else best)
      have hself := hnext _ List.mem_cons_self
      rcases mem_cons.1 hq with rfl | hq
      · refine Nat.le_trans hself ?_
        split
        · rename_i holder
          exact lastAccess_le_of_older holder
        · exact Nat.le_refl _
      · rcases mem_cons.1 hq with rfl | hq
        · refine Nat.le_trans hself ?_
          split
          · exact Nat.le_refl _
          · rename_i holder
            exact lastAccess_le_of_not_older holder
        · exact hnext q (List.mem_cons_of_mem _ hq)
  cases entries with
  | nil => cases h
  | cons first rest =>
    cases h
    exact hfold rest first

/-- The payloads that were used at this time or later, together. -/
def recentBytes (entries : Entries EntryKey DiskEntry) (time : ℕ) : ℕ :=
  storedBytes (entries.filter fun entry => decide (time ≤ entry.2.lastAccess))

variable {l l' : Entries EntryKey DiskEntry}

theorem storedBytes_perm (h : l.Perm l') : storedBytes l = storedBytes l' :=
  (h.map _).sum_eq

theorem storedBytes_append : storedBytes (l ++ l') = storedBytes l + storedBytes l' := by
  rw [storedBytes, List.map_append, List.sum_append]
  rfl

theorem storedBytes_sublist (h : l.Sublist l') : storedBytes l ≤ storedBytes l' :=
  List.Sublist.sum_le_sum (h.map _) fun _ _ => Nat.zero_le _

theorem recentBytes_anti (entries : Entries EntryKey DiskEntry) {time time' : ℕ} (h : time ≤ time') :
    recentBytes entries time' ≤ recentBytes entries time :=
  storedBytes_sublist (List.monotone_filter_right _ fun _ hx =>
    decide_eq_true (Nat.le_trans h (of_decide_eq_true hx)))

/-- Two ways to split a list, told apart by a property. -/
theorem perm_filter_of_append {α : Type} {p : α → Bool} {a b a' b' : List α}
    (h : (a ++ b).Perm (a' ++ b')) (ha : ∀ x ∈ a, p x = true) (ha' : ∀ x ∈ a', p x = false)
    (hb' : ∀ x ∈ b', p x = true) : (a ++ b.filter p).Perm b' ∧ b.Perm (a' ++ b.filter p) := by
  have hyes : ∀ {l : List α}, (∀ x ∈ l, p x = true) →
      l.filter p = l ∧ l.filter (fun x => !p x) = [] := fun hl =>
    ⟨List.filter_eq_self.2 hl, List.filter_eq_nil_iff.2 fun x hx => by simp [hl x hx]⟩
  have hno : a'.filter p = [] ∧ a'.filter (fun x => !p x) = a' :=
    ⟨List.filter_eq_nil_iff.2 fun x hx => by simp [ha' x hx],
      List.filter_eq_self.2 fun x hx => by simp [ha' x hx]⟩
  have hsame := h.filter p
  have hrest := h.filter fun x => !p x
  rw [filter_append, filter_append, (hyes ha).1, (hyes hb').1, hno.1] at hsame
  rw [filter_append, filter_append, (hyes ha).2, (hyes hb').2, hno.2,
    List.append_nil] at hrest
  exact ⟨hsame, ((b.filter_append_perm p).symm.trans List.perm_append_comm).trans
    (hrest.append_right _)⟩

/-- Some entries have gone, and the others are left.  Each that went had not been used after any that
stayed longer.  And it had to go: with it, and with `extra` bytes more, there was no room. -/
structure Evicts (extra maximum : ℕ) (before gone left : Entries EntryKey DiskEntry) : Prop where
  perm : (gone ++ left).Perm before
  fits : extra + storedBytes left ≤ maximum
  turn : ∀ a p b, gone = a ++ p :: b → maximum < extra + storedBytes (p :: b ++ left) ∧
    ∀ q ∈ b ++ left, p.2.lastAccess ≤ q.2.lastAccess

namespace Evicts

variable {extra maximum : ℕ} {before gone left : Entries EntryKey DiskEntry}
  {p : EntryKey × DiskEntry}

theorem refl (h : extra + storedBytes before ≤ maximum) : Evicts extra maximum before [] before :=
  ⟨.refl _, h, by simp⟩

section

variable (h : Evicts extra maximum before gone left)

include h

theorem le : storedBytes left ≤ storedBytes before := by
  rw [← storedBytes_perm h.perm]
  exact storedBytes_sublist (List.sublist_append_right _ _)

/-- **An entry goes only if there is no room for it and for those that were used since.** -/
theorem lt_of_gone (hp : p ∈ gone) : maximum < extra + recentBytes before p.2.lastAccess := by
  obtain ⟨a, b, rfl⟩ := List.append_of_mem hp
  obtain ⟨hover, hlater⟩ := h.turn a p b rfl
  have hrecent : storedBytes (p :: b ++ left) ≤ recentBytes before p.2.lastAccess := by
    rw [recentBytes, ← storedBytes_perm (h.perm.filter _)]
    have hall : (p :: b ++ left).filter (fun q => decide (p.2.lastAccess ≤ q.2.lastAccess)) =
        p :: b ++ left := by
      refine List.filter_eq_self.2 fun q hq => decide_eq_true ?_
      rcases mem_cons.1 hq with rfl | hq
      · exact Nat.le_refl _
      · exact hlater q hq
    rw [← hall]
    exact storedBytes_sublist (((List.sublist_append_right a (p :: b)).append_right left).filter _)
  omega

/-- Entries that were used after all others, and fit, stay: they count like what is to come. -/
theorem spare {time : ℕ} {fresh old : Entries EntryKey DiskEntry} (hperm : before.Perm (fresh ++ old))
    (hfresh : ∀ x ∈ fresh, time < x.2.lastAccess) (hold : ∀ x ∈ old, x.2.lastAccess ≤ time)
    (hroom : extra + storedBytes fresh ≤ maximum) :
    ∃ left', Evicts (extra + storedBytes fresh) maximum old gone left' ∧
      left.Perm (fresh ++ left') := by
  have hgone : ∀ x ∈ gone, x.2.lastAccess ≤ time := by
    intro x hx
    by_contra hlater
    have hover := h.lt_of_gone hx
    have hnone : old.filter (fun y => decide (x.2.lastAccess ≤ y.2.lastAccess)) = [] := by
      refine List.filter_eq_nil_iff.2 fun y hy => ?_
      have := hold y hy
      rw [decide_eq_true_eq]
      omega
    have hrecent : recentBytes before x.2.lastAccess ≤ storedBytes fresh := by
      rw [recentBytes, storedBytes_perm (hperm.filter _), filter_append, hnone,
        List.append_nil]
      exact storedBytes_sublist List.filter_sublist
    omega
  obtain ⟨hleft, hall⟩ := perm_filter_of_append (h.perm.trans hperm)
    (fun x hx => decide_eq_true (hgone x hx))
    (fun x hx => decide_eq_false (Nat.not_le.2 (hfresh x hx)))
    fun x hx => decide_eq_true (hold x hx)
  have hbytes := storedBytes_perm hall
  rw [storedBytes_append] at hbytes
  have hfits := h.fits
  refine ⟨_, ⟨hleft, by omega, fun a p b heq => ?_⟩, hall⟩
  obtain ⟨hover, hlater⟩ := h.turn a p b heq
  rw [storedBytes_append, hbytes] at hover
  refine ⟨by rw [storedBytes_append]; omega, fun q hq => hlater q ?_⟩
  exact List.mem_append.2 ((List.mem_append.1 hq).imp_right List.mem_of_mem_filter)

end

end Evicts

variable {maximum : ℕ} {key : EntryKey} {entries : Payloads}

variable {keys : List EntryKey} {bytes : List UInt8} {rounds : ℕ}

/-- **The loop takes the entries in the order of last use, and stops as soon as the rest fits.** -/
theorem Accounted.evictLoop_evicts (h : Accounted enc L state)
    (hafter : PersistentState.evictLoop maximum rounds state = .ok after) :
    ∃ gone, Evicts 0 maximum state.entries gone after.entries ∧ after.clock = state.clock := by
  have hstop : ∀ {state after : PersistentState}, Accounted enc L state →
      ¬state.payloadBytes > maximum → Except.ok (ε := CacheError) state = .ok after →
      ∃ gone, Evicts 0 maximum state.entries gone after.entries ∧ after.clock = state.clock := by
    intro state after h hfits heq
    cases heq
    rw [h.bytes, Nat.not_lt, ← Nat.zero_add (storedBytes _)] at hfits
    exact ⟨[], .refl hfits, rfl⟩
  induction rounds generalizing state with
  | zero =>
    rw [PersistentState.evictLoop] at hafter
    split at hafter
    · cases hafter
    · rename_i hfits
      exact hstop h hfits hafter
  | succ _ ih =>
    rw [PersistentState.evictLoop] at hafter
    split at hafter
    · rename_i hover
      split at hafter
      · cases hafter
      rename_i p hp
      obtain ⟨mid, hmid, hbooks, -, hentries, hclock⟩ := h.removeKey p.1
      rw [hmid] at hafter
      obtain ⟨gone, ⟨hperm, hfits, hturn⟩, hsame⟩ := ih hbooks hafter
      rw [hentries] at hperm
      have hall : (p :: gone ++ after.entries).Perm state.entries := (hperm.cons p).trans
        (Entries.perm_cons_erase h.distinct (Accounted.oldest_mem hp)).symm
      refine ⟨p :: gone, ⟨hall, hfits, fun a q b heq => ?_⟩, hsame.trans hclock⟩
      cases a with
      | nil =>
        cases heq
        refine ⟨?_, fun q hq => oldest_le hp q (hall.mem_iff.1 (List.mem_cons_of_mem _ hq))⟩
        rw [storedBytes_perm hall, ← h.bytes, Nat.zero_add]
        exact hover
      | cons _ a =>
        cases heq
        exact hturn a q b rfl
    · rename_i hfits
      exact hstop h hfits hafter

theorem removeKey_le (h : state.removeKey key = some after) :
    after.payloadBytes ≤ state.payloadBytes ∧ after.entries.length ≤ state.entries.length := by
  rw [removeKey] at h
  split at h
  · cases h
    exact ⟨Nat.le_refl _, Nat.le_refl _⟩
  obtain ⟨total, htotal, rfl⟩ := Option.map_eq_some_iff.1 h
  have := eq_of_checkedSub htotal
  exact ⟨by dsimp only; omega, List.length_filter_le _ _⟩

theorem Accounted.evictLoop_le (h : Accounted enc L state) (hbooks : Accounted enc L after)
    (hafter : PersistentState.evictLoop maximum rounds state = .ok after) :
    after.payloadBytes ≤ state.payloadBytes := by
  obtain ⟨gone, hevicts, -⟩ := h.evictLoop_evicts hafter
  rw [h.bytes, hbooks.bytes]
  exact hevicts.le

theorem evictToBudget_of_le (h : state.payloadBytes ≤ maximum) :
    state.evictToBudget maximum = .ok state := by
  rw [PersistentState.evictToBudget]
  cases state.entries.length <;> rw [evictLoop, if_neg (Nat.not_lt.2 h)]

/-! ## Insertion -/

/-- One more entry fits, if the sum does. -/
theorem Accounted.insertPrepared_ok (h : Accounted enc L state) (key : EntryKey)
    (bytes : List UInt8) (hsum : state.payloadBytes + bytes.length ≤ u64Max) :
    ∃ after, state.insertPrepared (.of enc key bytes) = .ok after := by
  obtain ⟨mid, hmid, -, hle, -⟩ := h.nextClock.removeKey key
  have hfits : mid.payloadBytes + bytes.length ≤ u64Max :=
    Nat.le_trans (Nat.add_le_add_right hle _) hsum
  rw [PersistentState.insertPrepared]
  dsimp only [PreparedEntry.of]
  rw [hmid]
  dsimp only
  rw [checkedAdd, if_pos hfits]
  exact ⟨_, rfl⟩

/-- The state with one more entry. -/
theorem Accounted.insertPrepared_eq (h : Accounted enc L state)
    (hafter : state.insertPrepared (.of enc key bytes) = .ok after) :
    after.entries = state.entries.insert key
        ((PreparedEntry.of enc key bytes).entry (saturatingAdd state.clock 1)) ∧
      after.clock = saturatingAdd state.clock 1 ∧
      after.payloadBytes ≤ state.payloadBytes + bytes.length := by
  obtain ⟨mid, hmid, -, hle, hentries, hclock⟩ := h.nextClock.removeKey key
  rw [PersistentState.insertPrepared] at hafter
  dsimp only [PreparedEntry.of] at hafter
  rw [hmid] at hafter
  dsimp only at hafter
  split at hafter
  · cases hafter
  rename_i total htotal
  cases hafter
  refine ⟨?_, hclock, ?_⟩
  · dsimp only
    rw [hclock, hentries, Entries.insert, Entries.insert, Entries.erase, Entries.erase,
      List.filter_filter]
    simp only [Bool.and_self]
    rfl
  · rw [eq_add_of_checkedAdd htotal]
    exact Nat.add_le_add_right hle _

/-- The lengths of the values, together. -/
def givenBytes (entries : Payloads) : ℕ :=
  (entries.map fun p => p.2.length).sum

theorem Accounted.insertAll_ok (h : Balanced enc state)
    (hsum : state.payloadBytes + givenBytes entries ≤ u64Max) :
    ∃ after, (entries.map fun p => .of enc p.1 p.2).foldlM PersistentState.insertPrepared state =
        .ok after ∧ after.entries.length ≤ state.entries.length + entries.length ∧
      after.payloadBytes ≤ state.payloadBytes + givenBytes entries := by
  induction entries generalizing state with
  | nil => exact ⟨state, rfl, Nat.le_refl _, Nat.le_refl _⟩
  | cons p _ ih =>
    rw [givenBytes, map_cons, sum_cons] at hsum
    have hfits : state.payloadBytes + p.2.length ≤ u64Max := by omega
    obtain ⟨mid, hmid⟩ : ∃ mid, state.insertPrepared (.of enc p.1 p.2) = .ok mid :=
      h.insertPrepared_ok p.1 p.2 hfits
    obtain ⟨hentries, -, hbytes⟩ := h.insertPrepared_eq hmid
    obtain ⟨after, hafter, hlength, hbytes'⟩ :=
      ih ((h.insertPrepared trivial).2 mid hmid) (by rw [givenBytes]; omega)
    have hlength_mid := Entries.length_insert_le state.entries p.1
      ((PreparedEntry.of enc p.1 p.2).entry (saturatingAdd state.clock 1))
    refine ⟨after, ?_, ?_, ?_⟩
    · rw [map_cons, foldlM_cons, hmid]
      exact hafter
    · rw [List.length_cons]
      rw [hentries] at hlength
      omega
    rw [givenBytes, map_cons, sum_cons]
    rw [givenBytes] at hbytes'
    omega

/-- **A splice that is small enough succeeds.** -/
theorem Accounted.splice_ok (h : Balanced enc state) (maximum : ℕ)
    (entries : Payloads)
    (hsum : state.payloadBytes + givenBytes entries ≤ u64Max)
    (hfew : state.entries.length + entries.length ≤ maxManifestEntries) :
    ∃ after, state.splice maximum (entries.map fun p => .of enc p.1 p.2) = .ok after ∧
      after.entries.length ≤ state.entries.length + entries.length ∧
      after.payloadBytes ≤ state.payloadBytes + givenBytes entries := by
  obtain ⟨proposed, hproposed, hlength, hbytes⟩ := h.insertAll_ok hsum
  have hbooks := (h.insertAll fun _ _ => trivial).2 proposed hproposed
  obtain ⟨after, hafter, hbooks', -, hlength'⟩ := hbooks.evictToBudget maximum
  refine ⟨after, ?_, Nat.le_trans hlength' hlength, ?_⟩
  · rw [PersistentState.splice, hproposed]
    dsimp only
    rw [if_neg (Nat.not_lt.2 (Nat.le_trans hlength hfew))]
    exact hafter
  · exact Nat.le_trans (hbooks.evictLoop_le hbooks' hafter) hbytes

/-- The entries that are not replaced by these. -/
def PersistentState.others (state : PersistentState) (entries : Payloads) :
    Entries EntryKey DiskEntry :=
  state.entries.filter fun p => decide (p.1 ∉ entries.map Prod.fst)

/-- The entries of the state that were made for these. -/
structure MadeFor (enc : Encoding) (clock : ℕ) (entries : Payloads)
    (fresh : Entries EntryKey DiskEntry) : Prop where
  keys : fresh.map Prod.fst = entries.map Prod.fst
  bytes : storedBytes fresh = givenBytes entries
  recent : ∀ x ∈ fresh, clock < x.2.lastAccess
  described : ∀ p ∈ entries, ∃ x ∈ fresh, x.1 = p.1 ∧ x.2.Describes enc p.2

theorem Accounted.insertAll_fresh (h : Balanced enc state)
    (hclock : state.clock + entries.length ≤ u64Max) (hkeys : (entries.map Prod.fst).Nodup)
    (hafter : (entries.map fun p => .of enc p.1 p.2).foldlM PersistentState.insertPrepared state =
      .ok after) :
    ∃ fresh, MadeFor enc state.clock entries fresh ∧
      after.entries.Perm (fresh ++ state.others entries) := by
  induction entries generalizing state with
  | nil =>
    cases hafter
    exact ⟨[], ⟨rfl, rfl, by simp, by simp⟩, by simp [PersistentState.others]⟩
  | cons p rest ih =>
    rw [map_cons, foldlM_cons] at hafter
    cases hmid : state.insertPrepared (.of enc p.1 p.2) with
    | error =>
      rw [hmid] at hafter
      cases hafter
    | ok mid =>
      rw [hmid] at hafter
      obtain ⟨hentries, hmidClock, -⟩ := h.insertPrepared_eq hmid
      rw [List.length_cons] at hclock
      rw [saturatingAdd_eq (by omega)] at hentries hmidClock
      obtain ⟨hfirst, hrest⟩ := List.nodup_cons.1 hkeys
      obtain ⟨fresh, hmade, hperm⟩ :=
        ih ((h.insertPrepared trivial).2 mid hmid) (by omega) hrest hafter
      set x := (p.1, (PreparedEntry.of enc p.1 p.2).entry (state.clock + 1))
      have hothers : mid.others rest = x :: state.others (p :: rest) := by
        rw [PersistentState.others, PersistentState.others, hentries, Entries.insert,
          List.filter_cons, if_pos (decide_eq_true hfirst), Entries.erase, List.filter_filter]
        congr 2
        funext q
        rw [Bool.eq_iff_iff, Bool.and_eq_true, decide_eq_true_eq, decide_eq_true_eq,
          decide_eq_true_eq, map_cons, mem_cons, not_or, and_comm]
      refine ⟨x :: fresh, ⟨?_, ?_, fun y hy => ?_, fun q hq => ?_⟩, ?_⟩
      · rw [map_cons, map_cons, hmade.keys]
      · have hbytes := hmade.bytes
        rw [storedBytes, givenBytes] at hbytes ⊢
        rw [map_cons, map_cons, sum_cons, sum_cons, hbytes]
        rfl
      · rcases mem_cons.1 hy with rfl | hy
        · exact Nat.lt_succ_self _
        · have := hmade.recent y hy
          omega
      · rcases mem_cons.1 hq with rfl | hq
        · exact ⟨x, List.mem_cons_self, rfl, rfl, rfl, rfl⟩
        · obtain ⟨y, hy, hdescribed⟩ := hmade.described q hq
          exact ⟨y, List.mem_cons_of_mem _ hy, hdescribed⟩
      · rw [hothers] at hperm
        exact hperm.trans List.perm_middle

/-- **A splice evicts entries that were there before, and none of its own.** -/
theorem Accounted.splice_evicts (h : Balanced enc state)
    (hclock : state.clock + entries.length ≤ u64Max) (hkeys : (entries.map Prod.fst).Nodup)
    (hroom : givenBytes entries ≤ maximum)
    (hafter : state.splice maximum (entries.map fun p => .of enc p.1 p.2) = .ok after) :
    ∃ gone left fresh, Evicts (givenBytes entries) maximum (state.others entries) gone left ∧
      MadeFor enc state.clock entries fresh ∧ after.entries.Perm (fresh ++ left) := by
  obtain ⟨proposed, hproposed, -, hafter⟩ := of_splice hafter
  obtain ⟨fresh, hmade, hperm⟩ := h.insertAll_fresh hclock hkeys hproposed
  obtain ⟨gone, hevicts, -⟩ :=
    ((h.insertAll fun _ _ => trivial).2 proposed hproposed).evictLoop_evicts hafter
  obtain ⟨left, hleft, hall⟩ := hevicts.spare hperm hmade.recent
    (fun x hx => h.clock x (List.mem_filter.1 hx).1) (by rw [hmade.bytes]; omega)
  rw [hmade.bytes, Nat.zero_add] at hleft
  exact ⟨gone, left, fresh, hleft, hmade, hall⟩

/-- **An entry that is inserted alone is there afterwards.**  It is the one that was used last. -/
theorem Accounted.splice_single (h : Balanced enc state)
    (hclock : state.clock < u64Max) (hfits : bytes.length ≤ maximum)
    (hafter : state.splice maximum [.of enc key bytes] = .ok after) :
    ∃ entry, after.entries.find key = some entry ∧ entry.Describes enc bytes := by
  have hlist : [PreparedEntry.of enc key bytes] =
      [(key, bytes)].map fun p => .of enc p.1 p.2 := rfl
  rw [hlist] at hafter
  have hclock' : state.clock + [(key, bytes)].length ≤ u64Max := hclock
  obtain ⟨_, left, fresh, -, hmade, hperm⟩ := h.splice_evicts hclock' (List.nodup_singleton key)
    (by simpa [givenBytes] using hfits) hafter
  obtain ⟨⟨_, entry⟩, hx, rfl, hdescribed⟩ := hmade.described _ List.mem_cons_self
  have hbooks := (h.splice maximum (fun _ _ => trivial) hafter).1
  exact ⟨entry, Entries.find_of_mem hbooks.distinct (hperm.mem_iff.2 (List.mem_append_left _ hx)),
    hdescribed⟩

/-- Values that fit the budget are prepared. -/
theorem prepare_of_fits (h : ∀ p ∈ entries, p.2.length ≤ maximum) :
    prepare enc maximum entries = .ok (entries.map fun p => .of enc p.1 p.2) := by
  induction entries with
  | nil => rfl
  | cons p _ ih =>
    rw [prepare, if_neg (Nat.not_lt.2 (h p List.mem_cons_self)),
      ih fun q hq => h q (List.mem_cons_of_mem _ hq)]
    rfl

theorem removeKeys_le (h : keys.foldlM removeKey state = some after) :
    after.payloadBytes ≤ state.payloadBytes ∧ after.entries.length ≤ state.entries.length := by
  induction keys generalizing state with
  | nil =>
    cases h
    exact ⟨Nat.le_refl _, Nat.le_refl _⟩
  | cons _ _ ih =>
    rw [foldlM_cons, Option.bind_eq_bind, Option.bind_eq_some_iff] at h
    obtain ⟨mid, hmid, h⟩ := h
    obtain ⟨hbytes, hlength⟩ := removeKey_le hmid
    obtain ⟨hbytes', hlength'⟩ := ih h
    exact ⟨Nat.le_trans hbytes' hbytes, Nat.le_trans hlength' hlength⟩

/-! ## Limits -/

/-- A state that a manifest can hold. -/
structure PersistentState.Limited (state : PersistentState) : Prop where
  few : state.entries.length ≤ maxManifestEntries
  bytes : state.payloadBytes ≤ u64Max

theorem limited_empty : PersistentState.empty.Limited := ⟨Nat.zero_le _, Nat.zero_le _⟩

theorem PersistentState.Limited.removeKeys (h : state.Limited)
    (hafter : keys.foldlM removeKey state = some after) : after.Limited := by
  obtain ⟨hbytes, hlength⟩ := removeKeys_le hafter
  exact ⟨Nat.le_trans hlength h.few, Nat.le_trans hbytes h.bytes⟩

theorem PersistentState.Limited.touchEntries (h : state.Limited) (keys : List EntryKey) :
    (state.touchEntries keys).Limited := by
  obtain ⟨hfew, hbytes⟩ := h
  rw [← touchEntries_payloadBytes state keys] at hbytes
  rw [← touchEntries_length state keys] at hfew
  exact ⟨hfew, hbytes⟩

theorem Accounted.evictToBudget_limited (h : Accounted enc L state) (hlimited : state.Limited)
    (maximum : ℕ) : ∃ after, state.evictToBudget maximum = .ok after ∧ Accounted enc L after ∧
      after.Limited := by
  obtain ⟨after, hafter, hbooks, -, hlength⟩ := h.evictToBudget maximum
  exact ⟨after, hafter, hbooks, Nat.le_trans hlength hlimited.few,
    Nat.le_trans (h.evictLoop_le hbooks hafter) hlimited.bytes⟩

theorem insertAll_bytes_le {entries : List PreparedEntry}
    (h : state.payloadBytes ≤ u64Max)
    (hafter : entries.foldlM insertPrepared state = .ok after) :
    after.payloadBytes ≤ u64Max := by
  induction entries generalizing state with
  | nil =>
    cases hafter
    exact h
  | cons entry _ ih =>
    rw [foldlM_cons] at hafter
    cases hfirst : state.insertPrepared entry with
    | error =>
      rw [hfirst] at hafter
      cases hafter
    | ok =>
      rw [hfirst] at hafter
      refine ih ?_ hafter
      rw [insertPrepared] at hfirst
      split at hfirst
      · cases hfirst
      split at hfirst
      · cases hfirst
      rename_i total htotal
      cases hfirst
      exact checkedAdd_le htotal

/-- A splice checks the limits before anything is evicted. -/
theorem Accounted.splice_limited (h : Balanced enc state)
    (hlimited : state.Limited)
    (hafter : state.splice maximum (entries.map fun p => .of enc p.1 p.2) = .ok after) :
    after.Limited := by
  obtain ⟨proposed, hproposed, hfew, hafter⟩ := of_splice hafter
  have hbooks := (h.insertAll fun _ _ => trivial).2 proposed hproposed
  obtain ⟨after', hafter', -, hlimited'⟩ := hbooks.evictToBudget_limited
    ⟨hfew, insertAll_bytes_le hlimited.bytes hproposed⟩ maximum
  cases hafter.symm.trans hafter'
  exact hlimited'

theorem loadAll_le {entries : List DiskEntry} (h : state.payloadBytes ≤ u64Max)
    (hafter : entries.foldlM loadEntry state = .ok after) :
    after.entries.length ≤ state.entries.length + entries.length ∧ after.payloadBytes ≤ u64Max := by
  induction entries generalizing state with
  | nil =>
    cases hafter
    exact ⟨Nat.le_refl _, h⟩
  | cons entry _ ih =>
    rw [foldlM_cons] at hafter
    cases hfirst : state.loadEntry entry with
    | error =>
      rw [hfirst] at hafter
      cases hafter
    | ok =>
      rw [hfirst] at hafter
      rw [loadEntry] at hfirst
      split at hfirst
      · cases hfirst
      rename_i total htotal
      split at hfirst
      · cases hfirst
      cases hfirst
      obtain ⟨hlength, hbytes⟩ := ih (checkedAdd_le htotal) hafter
      dsimp only at hlength
      have := Entries.length_insert_le state.entries entry.key entry
      rw [List.length_cons]
      exact ⟨by omega, hbytes⟩

theorem limited_load {manifest : Manifest}
    (hload : load enc manifest = .ok after) : after.Limited := by
  rw [load] at hload
  split at hload
  · cases hload
  rename_i hlimits
  obtain ⟨hlength, hbytes⟩ := loadAll_le (Nat.zero_le _) hload
  rw [List.length_nil] at hlength
  exact ⟨by omega, hbytes⟩

/-! ## Manifests -/

/-- The loop of `load_manifest`: the entries are put in front, one after the other. -/
theorem loadAll_ok {entries : List DiskEntry} {clock bytes : ℕ} {acc : Entries EntryKey DiskEntry}
    (hdistinct : (entries.map DiskEntry.key).Nodup)
    (hfresh : ∀ entry ∈ entries, Entries.find acc entry.key = none)
    (hbytes : bytes + (entries.map DiskEntry.storedLength).sum ≤ u64Max) :
    ∃ loaded, entries.foldlM loadEntry ⟨clock, bytes, acc⟩ = .ok loaded ∧
      loaded.entries.Perm (entries.map (fun entry => (entry.key, entry)) ++ acc) := by
  induction entries generalizing bytes acc with
  | nil => exact ⟨_, rfl, .refl _⟩
  | cons entry rest ih =>
    rw [map_cons, List.nodup_cons] at hdistinct
    rw [map_cons, sum_cons] at hbytes
    have hnone := hfresh entry List.mem_cons_self
    have hload : loadEntry ⟨clock, bytes, acc⟩ entry =
        .ok ⟨clock, bytes + entry.storedLength, (entry.key, entry) :: acc⟩ := by
      rw [loadEntry]
      dsimp only
      rw [checkedAdd, if_pos (by omega), hnone]
      dsimp only
      rw [Entries.insert, Entries.erase_of_find_eq_none hnone]
    have hfresh' : ∀ e ∈ rest, Entries.find ((entry.key, entry) :: acc) e.key = none := by
      intro e he
      rw [Entries.find_cons, if_neg]
      · exact hfresh e (List.mem_cons_of_mem _ he)
      · intro heq
        exact hdistinct.1 (List.mem_map.2 ⟨e, he, heq⟩)
    have hbytes' : bytes + entry.storedLength + (rest.map DiskEntry.storedLength).sum ≤ u64Max := by
      omega
    obtain ⟨loaded, hloaded, hperm⟩ := ih hdistinct.2 hfresh' hbytes'
    refine ⟨loaded, ?_, hperm.trans List.perm_middle⟩
    rw [foldlM_cons, hload]
    exact hloaded

/-- **A manifest gives back what it was made from.** -/
theorem Accounted.load_manifest (h : Accounted enc L state)
    (hlimited : state.Limited) (hlength : enc.manifestLength state.manifest ≤ maxManifestSize) :
    ∃ loaded, PersistentState.load enc state.manifest = .ok loaded ∧
      loaded.entries.Perm state.entries := by
  have hsorted : state.manifest.entries.Perm (state.entries.map Prod.snd) :=
    List.perm_insertionSort _ _
  have hkeys : (state.entries.map Prod.snd).map (fun entry => (entry.key, entry)) =
      state.entries := by
    rw [List.map_map]
    refine (List.map_congr_left fun p hp => ?_).trans (List.map_id _)
    exact Prod.ext (h.key p hp) rfl
  have hdistinct : (state.manifest.entries.map DiskEntry.key).Nodup := by
    refine (hsorted.map _).nodup_iff.2 ?_
    have hfst : (state.entries.map Prod.snd).map DiskEntry.key = state.entries.map Prod.fst := by
      rw [List.map_map]
      exact List.map_congr_left h.key
    rw [hfst]
    exact h.distinct
  have hsum : (state.manifest.entries.map DiskEntry.storedLength).sum = state.payloadBytes := by
    rw [(hsorted.map _).sum_eq, List.map_map, h.bytes]
    rfl
  obtain ⟨loaded, hloaded, hperm⟩ : ∃ loaded, state.manifest.entries.foldlM
      PersistentState.loadEntry ⟨state.manifest.clock, 0, []⟩ = .ok loaded ∧
      loaded.entries.Perm (state.manifest.entries.map (fun entry => (entry.key, entry)) ++ []) :=
    loadAll_ok hdistinct (fun _ _ => rfl) (by rw [hsum, Nat.zero_add]; exact hlimited.bytes)
  refine ⟨loaded, ?_, ?_⟩
  · rw [PersistentState.load, if_neg]
    · exact hloaded
    have := hlimited.few
    rw [hsorted.length_eq, List.length_map]
    omega
  · rw [List.append_nil] at hperm
    have := hsorted.map (fun entry => (entry.key, entry))
    rw [hkeys] at this
    exact hperm.trans this

end QuickFS.Files
