import CloudHands.Lib.Run
import CloudHands.PartContent.Parser

/-!
# The sessions that the partial content keeps

Every session that is parsed is returned, or its body has been written into a download in the
table; what the sweep of a 206 response removes from the table is neither.
-/

namespace CloudHands.PartContent

open Lib

/-- One call of `HTTPSessionParser.parse`: the session and the clock in `doParse` and in `clean`. -/
structure Call where
  session : HTTPSession
  now : ℤ
  cleanNow : ℤ

def parked (t : PartContents) : List HTTPSession := t.entries.flatMap (·.2.fileStorage.written)

def parts (rs : List Returned) : List HTTPSession := rs.flatMap (·.parts)

section Steps

variable (digit : Char → Option ℕ)

def handle (st : PartContents × List Returned) (c : Call) : PartContents × List Returned :=
  ((sessionParse digit c.now c.cleanNow c.session st.1).2,
    st.2 ++ (sessionParse digit c.now c.cleanNow c.session st.1).1)

def handleAll (calls : List Call) : PartContents × List Returned :=
  calls.foldl (handle digit) (∅, [])

def sweptTable (c : Call) (t : PartContents) : PartContents :=
  if c.session.isPartContent then (doParse digit c.now c.session t).2 else t

def dropped (c : Call) (t : PartContents) : List Returned :=
  if c.session.isPartContent then (clean c.cleanNow (sweptTable digit c t)).1 else []

end Steps

theorem entries_perm {t : PartContents} {key : String} {v : PartContentValue}
    (h : t.lookup key = some v) : t.entries.Perm (⟨key, v⟩ :: (t.erase key).entries) := by
  have hmem : key ∈ t := by
    rw [← AList.lookup_isSome, h]
    rfl
  obtain ⟨v', before, after, hkey, hsplit, herase⟩ := List.exists_of_kerase hmem
  have hv' : t.lookup key = some v' := by
    apply AList.mem_lookup_iff.2
    rw [hsplit]
    simp
  obtain rfl : v = v' := Option.some.inj (h.symm.trans hv')
  have hentries : (t.erase key).entries = before ++ after := herase
  rw [hentries, hsplit]
  exact List.perm_middle

theorem parked_of_lookup {t : PartContents} {key : String} {v : PartContentValue}
    (h : t.lookup key = some v) :
    (parked t).Perm (v.fileStorage.written ++ parked (t.erase key)) :=
  (entries_perm h).flatMap_right _

theorem parked_insert (t : PartContents) (key : String) (v : PartContentValue) :
    parked (t.insert key v) = v.fileStorage.written ++ parked (t.erase key) := rfl

theorem erase_of_lookup_none {t : PartContents} {key : String} (h : t.lookup key = none) :
    t.erase key = t :=
  AList.ext (List.kerase_of_notMem_keys (AList.lookup_eq_none.1 h))

theorem returnComplete_perm (key : String) (v : PartContentValue) (t : PartContents) :
    (parts (returnComplete key v t).1 ++ parked (returnComplete key v t).2).Perm
      (v.fileStorage.written ++ parked (t.erase key)) := by
  unfold returnComplete
  split
  · simp [parts, PartContentValue.getFinalHttpSession]
  · rw [parked_insert]
    simp [parts]

theorem written_of_fileStorage {s : HTTPSession} {offset : ℕ} {f : FileStorage}
    (h : fileStorage s offset = some f) : f.written = [s] := by
  unfold fileStorage at h
  split at h
  · obtain rfl := Option.some.inj h
    rfl
  · obtain rfl := Option.some.inj h
    rfl
  · cases h

theorem written_of_write {f f' : FileStorage} {s : HTTPSession} {offset : ℕ}
    (h : f.write s offset = some f') : f'.written = f.written ++ [s] := by
  unfold FileStorage.write at h
  split at h
  · obtain rfl := Option.some.inj h
    rfl
  · cases h
  · cases h

theorem doParse_perm (digit : Char → Option ℕ) (now : ℤ) (s : HTTPSession) (t : PartContents) :
    (parts (doParse digit now s t).1 ++ parked (doParse digit now s t).2).Perm (s :: parked t) := by
  have hasIs : parts [Returned.asIs s] = [s] := rfl
  unfold doParse
  split
  · exact .refl _
  · split
    next v hv =>
      have hparked := parked_of_lookup hv
      dsimp only
      split
      · rw [hasIs, parked_insert]
        exact hparked.symm.cons s
      next f hf =>
        have hwritten := written_of_write hf
        refine (returnComplete_perm _ _ t).trans ?_
        dsimp only
        rw [hwritten, List.append_assoc]
        exact List.perm_middle.trans (hparked.symm.cons s)
    next hnone =>
      split
      · exact .refl _
      next v hv =>
        obtain ⟨f, hf, rfl⟩ : ∃ f, fileStorage s _ = some f ∧ _ = v := by
          simpa [createPCV, Option.bind_eq_some_iff] using hv
        refine (returnComplete_perm _ _ t).trans ?_
        rw [erase_of_lookup_none hnone]
        dsimp only
        rw [written_of_fileStorage hf]
        exact .refl _

theorem clean_perm (now : ℤ) (t : PartContents) :
    (parts (clean now t).1 ++ parked (clean now t).2).Perm (parked t) := by
  have hparts : parts (clean now t).1 =
      (t.entries.filter (·.2.isTimeout now)).flatMap (·.2.fileStorage.written) := by
    simp [parts, clean, moveAllTimeout, List.flatMap_map, PartContentValue.getFinalHttpSession]
  rw [hparts, parked, parked, ← List.flatMap_append]
  exact (List.filter_append_perm _ _).flatMap_right _

theorem sessionParse_perm (digit : Char → Option ℕ) (c : Call) (t : PartContents) :
    (parts (sessionParse digit c.now c.cleanNow c.session t).1 ++ (parts (dropped digit c t) ++
      parked (sessionParse digit c.now c.cleanNow c.session t).2)).Perm (c.session ::
        parked t) := by
  unfold sessionParse dropped sweptTable
  split
  · have hclean := clean_perm c.cleanNow (doParse digit c.now c.session t).2
    exact (hclean.append_left _).trans (doParse_perm digit c.now c.session t)
  · simp only [parts, List.flatMap_cons, List.flatMap_nil, List.nil_append, List.append_assoc]
    exact (clean_perm c.cleanNow t).cons c.session

def StaysParked (digit : Char → Option ℕ) (c : Call) (t : PartContents) : Prop :=
  ∃ r ∈ contentRangeParse digit c.session.contentRange,
    match t.lookup c.session.get206Key with
    | some v => ∀ f ∈ v.fileStorage.write c.session r.rangeFrom,
        ¬ { v with fileStorage := f }.isComplete
    | none => ∃ v ∈ createPCV c.now c.session r, ¬ v.isComplete

/-- A download that the sweep of a 206 response finds idle: one that the response does not
belong to or has no part for, or its own if the clock has gone on that far since. -/
def IdleAtSweep (digit : Char → Option ℕ) (c : Call) (t : PartContents) : Prop :=
  (∃ key v, t.lookup key = some v ∧ v.isTimeout c.cleanNow ∧
    (key = c.session.get206Key → contentRangeParse digit c.session.contentRange = none)) ∨
  (StaysParked digit c t ∧ timeout < c.cleanNow - c.now)

theorem returnComplete_lookup_ne {key key' : String} (h : key' ≠ key) (v : PartContentValue)
    (t : PartContents) : (returnComplete key v t).2.lookup key' = t.lookup key' := by
  unfold returnComplete
  split
  · exact AList.lookup_erase_ne h
  · exact AList.lookup_insert_ne h

theorem returnComplete_lookup (key : String) (v : PartContentValue) (t : PartContents) :
    (returnComplete key v t).2.lookup key = if v.isComplete then none else some v := by
  unfold returnComplete
  split
  · exact AList.lookup_erase key t
  · exact AList.lookup_insert t

theorem doParse_lookup_ne (digit : Char → Option ℕ) (now : ℤ) {s : HTTPSession} {key : String}
    (h : key ≠ s.get206Key) (t : PartContents) :
    (doParse digit now s t).2.lookup key = t.lookup key := by
  unfold doParse
  split
  · rfl
  · split
    · dsimp only
      split
      · exact AList.lookup_insert_ne h
      · exact returnComplete_lookup_ne h _ t
    · split
      · rfl
      · exact returnComplete_lookup_ne h _ t

theorem doParse_lookup_self {digit : Char → Option ℕ} {c : Call} {t : PartContents}
    {r : ContentRange}
    (hr : contentRangeParse digit c.session.contentRange = some r) :
    (StaysParked digit c t → ∃ v,
      (doParse digit c.now c.session t).2.lookup c.session.get206Key = some v ∧
        v.lastTime = c.now) ∧
    (¬ StaysParked digit c t →
      (doParse digit c.now c.session t).2.lookup c.session.get206Key = none) := by
  have hstays : StaysParked digit c t ↔ match t.lookup c.session.get206Key with
      | some v => ∀ f ∈ v.fileStorage.write c.session r.rangeFrom,
          ¬ { v with fileStorage := f }.isComplete
      | none => ∃ v ∈ createPCV c.now c.session r, ¬ v.isComplete := by
    simp [StaysParked, hr]
  rw [hstays]
  simp only [doParse, hr]
  cases hv : t.lookup c.session.get206Key with
  | some v =>
    dsimp only
    cases hf : v.fileStorage.write c.session r.rangeFrom with
    | none =>
      refine ⟨fun _ => ⟨_, AList.lookup_insert t, rfl⟩, fun hno => absurd ?_ hno⟩
      simp
    | some f =>
      have hsame : { v with lastTime := c.now, fileStorage := f }.isComplete =
          { v with fileStorage := f }.isComplete := rfl
      rw [returnComplete_lookup, hsame]
      simp
  | none =>
    dsimp only
    cases hcreate : createPCV c.now c.session r with
    | none => simp [hv]
    | some v =>
      have hlast : v.lastTime = c.now := by
        obtain ⟨f, -, rfl⟩ : ∃ f, fileStorage c.session r.rangeFrom = some f ∧ _ = v := by
          simpa [createPCV, Option.bind_eq_some_iff] using hcreate
        rfl
      dsimp only
      rw [returnComplete_lookup]
      simp [hlast]

theorem clean_lookup {now : ℤ} {t : PartContents} {key : String} {v : PartContentValue} :
    (clean now t).2.lookup key = some v ↔ t.lookup key = some v ∧ ¬ v.isTimeout now := by
  have hmem : (clean now t).2.lookup key = some v ↔
      (⟨key, v⟩ : Σ _, PartContentValue) ∈ t.entries.filter (!·.2.isTimeout now) :=
    AList.mem_lookup_iff
  have hold : t.lookup key = some v ↔ (⟨key, v⟩ : Σ _, PartContentValue) ∈ t.entries :=
    AList.mem_lookup_iff
  rw [hmem, hold, List.mem_filter]
  simp

theorem mem_clean {now : ℤ} {t : PartContents} {out : Returned} :
    out ∈ (clean now t).1 ↔
      ∃ key v, t.lookup key = some v ∧ v.isTimeout now ∧ v.getFinalHttpSession = out := by
  have hold : ∀ key v, t.lookup key = some v ↔ (⟨key, v⟩ : Σ _, PartContentValue) ∈ t.entries :=
    fun _ _ => AList.mem_lookup_iff
  simp only [clean, moveAllTimeout, List.mem_map, List.mem_filter, hold]
  constructor
  · rintro ⟨v, ⟨⟨key, v'⟩, ⟨hmem, hidle⟩, rfl⟩, rfl⟩
    exact ⟨key, v', hmem, hidle, rfl⟩
  · rintro ⟨key, v, hmem, hidle, rfl⟩
    exact ⟨v, ⟨⟨key, v⟩, ⟨hmem, hidle⟩, rfl⟩, rfl⟩

theorem idleAtSweep_iff {digit : Char → Option ℕ} {c : Call} {t : PartContents} :
    (∃ key v, (doParse digit c.now c.session t).2.lookup key = some v ∧ v.isTimeout c.cleanNow) ↔
      IdleAtSweep digit c t := by
  cases hr : contentRangeParse digit c.session.contentRange with
  | none =>
    have hsame : (doParse digit c.now c.session t).2 = t := by simp [doParse, hr]
    simp [IdleAtSweep, StaysParked, hr, hsame]
  | some r =>
    obtain ⟨hstays, hleaves⟩ := doParse_lookup_self (t := t) hr
    constructor
    · rintro ⟨key, v, hv, hidle⟩
      by_cases hkey : key = c.session.get206Key
      · subst hkey
        by_cases hparked : StaysParked digit c t
        · obtain ⟨v', hv', hlast⟩ := hstays hparked
          obtain rfl : v = v' := Option.some.inj (hv.symm.trans hv')
          rw [PartContentValue.isTimeout, hlast, decide_eq_true_eq] at hidle
          exact .inr ⟨hparked, hidle⟩
        · rw [hleaves hparked] at hv
          cases hv
      · rw [doParse_lookup_ne digit c.now hkey] at hv
        exact .inl ⟨key, v, hv, hidle, fun h => absurd h hkey⟩
    · rintro (⟨key, v, hv, hidle, hown⟩ | ⟨hparked, hlate⟩)
      · have hkey : key ≠ c.session.get206Key := fun h => absurd (hown h) (by simp [hr])
        exact ⟨key, v, (doParse_lookup_ne digit c.now hkey t).trans hv, hidle⟩
      · obtain ⟨v, hv, hlast⟩ := hstays hparked
        refine ⟨_, v, hv, ?_⟩
        rw [PartContentValue.isTimeout, hlast]
        exact decide_eq_true hlate

theorem dropped_eq_nil_iff {digit : Char → Option ℕ} {c : Call} {t : PartContents} :
    dropped digit c t = [] ↔ (c.session.isPartContent → ¬ IdleAtSweep digit c t) := by
  unfold dropped sweptTable
  split
  case isTrue hpart =>
    rw [← idleAtSweep_iff, List.eq_nil_iff_forall_not_mem]
    simp only [mem_clean, hpart, true_imp_iff]
    constructor
    · rintro hno ⟨key, v, hv, hidle⟩
      exact hno _ ⟨key, v, hv, hidle, rfl⟩
    · rintro hno out ⟨key, v, hv, hidle, -⟩
      exact hno ⟨key, v, hv, hidle⟩
  case isFalse hpart => simp [hpart]

def Filled (t : PartContents) : Prop :=
  ∀ key v, t.lookup key = some v → v.fileStorage.written ≠ []

theorem Filled.insert {t : PartContents} (h : Filled t) {key : String} {v : PartContentValue}
    (hv : v.fileStorage.written ≠ []) : Filled (t.insert key v) := by
  intro key' v' hv'
  by_cases hkey : key' = key
  · subst hkey
    obtain rfl : v = v' := Option.some.inj ((AList.lookup_insert t).symm.trans hv')
    exact hv
  · rw [AList.lookup_insert_ne hkey] at hv'
    exact h key' v' hv'

theorem Filled.returnComplete {t : PartContents} (h : Filled t) {key : String}
    {v : PartContentValue}
    (hv : v.fileStorage.written ≠ []) : Filled (returnComplete key v t).2 := by
  unfold PartContent.returnComplete
  split
  · intro key' v' hv'
    by_cases hkey : key' = key
    · subst hkey
      cases (AList.lookup_erase key' t).symm.trans hv'
    · rw [AList.lookup_erase_ne hkey] at hv'
      exact h key' v' hv'
  · exact h.insert hv

theorem Filled.doParse {t : PartContents} (h : Filled t) (digit : Char → Option ℕ) (now : ℤ)
    (s : HTTPSession) : Filled (doParse digit now s t).2 := by
  unfold PartContent.doParse
  split
  · exact h
  · split
    next v hv =>
      dsimp only
      split
      · have hfilled : v.fileStorage.written ≠ [] := h _ _ hv
        exact h.insert hfilled
      next f hf =>
        refine h.returnComplete ?_
        dsimp only
        rw [written_of_write hf]
        simp
    next =>
      split
      · exact h
      next v hv =>
        obtain ⟨f, hf, rfl⟩ : ∃ f, fileStorage s _ = some f ∧ _ = v := by
          simpa [createPCV, Option.bind_eq_some_iff] using hv
        refine h.returnComplete ?_
        dsimp only
        rw [written_of_fileStorage hf]
        simp

theorem Filled.clean {t : PartContents} (h : Filled t) (now : ℤ) : Filled (clean now t).2 :=
  fun key v hv => h key v (clean_lookup.1 hv).1

theorem Filled.sweptTable {t : PartContents} (h : Filled t) (digit : Char → Option ℕ) (c : Call) :
    Filled (sweptTable digit c t) := by
  unfold PartContent.sweptTable
  split
  · exact h.doParse digit c.now c.session
  · exact h

theorem sessionParse_table (digit : Char → Option ℕ) (c : Call) (t : PartContents) :
    (sessionParse digit c.now c.cleanNow c.session t).2 =
      (clean c.cleanNow (sweptTable digit c t)).2 := by
  unfold sessionParse sweptTable
  split <;> rfl

section Runs

variable {digit : Char → Option ℕ}

def history (digit : Char → Option ℕ) (calls : List Call) :
    List ((PartContents × List Returned) × Call) :=
  trace (handle digit) (∅, []) calls

theorem handleAll_snoc (calls : List Call) (c : Call) :
    handleAll digit (calls ++ [c]) = handle digit (handleAll digit calls) c := by
  simp [handleAll]

theorem history_snoc (calls : List Call) (c : Call) :
    history digit (calls ++ [c]) = history digit calls ++ [(handleAll digit calls, c)] :=
  trace_append _ _ _ _

theorem handleAll_filled (calls : List Call) : Filled (handleAll digit calls).1 := by
  induction calls using List.reverseRecOn with
  | nil =>
    rintro key v hv
    cases (AList.lookup_empty key).symm.trans hv
  | append_singleton calls c ih =>
    rw [handleAll_snoc, handle, sessionParse_table]
    exact (ih.sweptTable digit c).clean c.cleanNow

theorem handleAll_perm (digit : Char → Option ℕ) (calls : List Call) :
    (calls.map (·.session)).Perm (parts (handleAll digit calls).2 ++
      (((history digit calls).flatMap fun v => parts (dropped digit v.2 v.1.1)) ++
        parked (handleAll digit calls).1)) := by
  induction calls using List.reverseRecOn with
  | nil => exact .refl _
  | append_singleton calls c ih =>
    have hstep := sessionParse_perm digit c (handleAll digit calls).1
    rw [handleAll_snoc, handle, history_snoc]
    simp only [parts, List.map_append, List.map_cons, List.map_nil, List.flatMap_append,
      List.flatMap_cons, List.flatMap_nil, List.append_nil] at ih hstep ⊢
    rw [List.perm_iff_count] at ih hstep ⊢
    intro s
    have hcalls := ih s
    have hone := hstep s
    simp only [List.count_append, List.count_cons, List.count_nil] at hcalls hone ⊢
    omega

theorem parts_dropped_eq_nil_iff {c : Call} {t : PartContents} (ht : Filled t) :
    parts (dropped digit c t) = [] ↔ dropped digit c t = [] := by
  refine ⟨fun hparts => ?_, fun h => by rw [h]; rfl⟩
  rw [List.eq_nil_iff_forall_not_mem]
  intro out hout
  have hempty : out.parts = [] := List.flatMap_eq_nil_iff.1 hparts out hout
  unfold dropped at hout
  split at hout
  · obtain ⟨key, v, hv, -, rfl⟩ := mem_clean.1 hout
    exact ht.sweptTable digit c key v hv hempty
  · simp at hout

/-- No session is lost: each is returned once, by itself or in a merged session, or is in a
download of the table; the downloads that a call finds idle are returned by it, and so is what
it takes out of the table. -/
structure Kept (digit : Char → Option ℕ) (calls : List Call) : Prop where
  conserved : (calls.map (·.session)).Perm
    (parts (handleAll digit calls).2 ++ parked (handleAll digit calls).1)
  idle_returned : ∀ v ∈ history digit calls, ∀ key d,
    (sweptTable digit v.2 v.1.1).lookup key = some d → d.isTimeout v.2.cleanNow →
    d.getFinalHttpSession ∈ (sessionParse digit v.2.now v.2.cleanNow v.2.session v.1.1).1
  removed_returned : ∀ v ∈ history digit calls, ∀ key d, v.1.1.lookup key = some d →
    (∃ d', (handle digit v.1 v.2).1.lookup key = some d') ∨
      ∃ out ∈ (sessionParse digit v.2.now v.2.cleanNow v.2.session v.1.1).1,
        d.fileStorage.written ⊆ out.parts

theorem history_filled {calls : List Call} {v : (PartContents × List Returned) × Call}
    (hv : v ∈ history digit calls) : Filled v.1.1 := by
  induction calls using List.reverseRecOn with
  | nil => simp [history, trace] at hv
  | append_singleton calls c ih =>
    rw [history_snoc] at hv
    rcases List.mem_append.1 hv with hv | hv
    · exact ih hv
    · obtain rfl := List.mem_singleton.1 hv
      exact handleAll_filled calls

/-- What `doParse` takes out of the table it returns. -/
theorem doParse_removes {now : ℤ} {s : HTTPSession} {t : PartContents} {key : String}
    {v : PartContentValue} (hv : t.lookup key = some v) :
    (∃ v', (doParse digit now s t).2.lookup key = some v') ∨
      ∃ out ∈ (doParse digit now s t).1, v.fileStorage.written ⊆ out.parts := by
  by_cases hkey : key = s.get206Key
  · subst hkey
    simp only [doParse, hv]
    split
    · exact .inl ⟨v, hv⟩
    · split
      · exact .inl ⟨_, AList.lookup_insert t⟩
      next f hf =>
        unfold returnComplete
        split
        · refine .inr ⟨_, List.mem_singleton_self _, ?_⟩
          dsimp only [PartContentValue.getFinalHttpSession]
          rw [written_of_write hf]
          exact List.subset_append_left _ _
        · exact .inl ⟨_, AList.lookup_insert t⟩
  · exact .inl ⟨v, (doParse_lookup_ne digit now hkey t).trans hv⟩

theorem idle_returned_of_quiet {c : Call} {t : PartContents}
    (hquiet : c.session.isPartContent → ¬ IdleAtSweep digit c t) {key : String}
    {d : PartContentValue} (hd : (sweptTable digit c t).lookup key = some d)
    (hidle : d.isTimeout c.cleanNow) :
    d.getFinalHttpSession ∈ (sessionParse digit c.now c.cleanNow c.session t).1 := by
  unfold sweptTable at hd
  unfold sessionParse
  split
  case isTrue hpart =>
    rw [if_pos hpart] at hd
    exact absurd (idleAtSweep_iff.1 ⟨key, d, hd, hidle⟩) (hquiet hpart)
  case isFalse hpart =>
    rw [if_neg hpart] at hd
    exact List.mem_cons_of_mem _ (mem_clean.2 ⟨key, d, hd, hidle, rfl⟩)

theorem removed_returned_of_quiet {c : Call} {st : PartContents × List Returned}
    (hquiet : c.session.isPartContent → ¬ IdleAtSweep digit c st.1) {key : String}
    {d : PartContentValue} (hd : st.1.lookup key = some d) :
    (∃ d', (handle digit st c).1.lookup key = some d') ∨
      ∃ out ∈ (sessionParse digit c.now c.cleanNow c.session st.1).1,
        d.fileStorage.written ⊆ out.parts := by
  rw [handle, sessionParse_table]
  by_cases hpart : c.session.isPartContent
  · have hno := hquiet hpart
    rw [← idleAtSweep_iff] at hno
    simp only [sweptTable, sessionParse, if_pos hpart, parse]
    rcases doParse_removes hd with ⟨d', hd'⟩ | hout
    · exact .inl ⟨d', clean_lookup.2 ⟨hd', fun hidle => hno ⟨key, d', hd', hidle⟩⟩⟩
    · exact .inr hout
  · simp only [sweptTable, sessionParse, if_neg hpart]
    by_cases hidle : d.isTimeout c.cleanNow
    · have hout := mem_clean.2 ⟨key, d, hd, hidle, rfl⟩
      exact .inr ⟨_, List.mem_cons_of_mem _ hout, List.Subset.refl _⟩
    · exact .inl ⟨d, clean_lookup.2 ⟨hd, hidle⟩⟩

/-- No session is lost in a run exactly if no sweep of a 206 response finds an idle download. -/
theorem sessions_kept_iff (digit : Char → Option ℕ) (calls : List Call) :
    Kept digit calls ↔ ∀ v ∈ history digit calls,
      v.2.session.isPartContent → ¬ IdleAtSweep digit v.2 v.1.1 := by
  constructor
  · intro h v hv
    have hlen := h.conserved.length_eq.symm.trans (handleAll_perm digit calls).length_eq
    simp only [List.length_append] at hlen
    have hnone : ((history digit calls).flatMap fun v => parts (dropped digit v.2 v.1.1)) = [] :=
      List.eq_nil_of_length_eq_zero (by omega)
    have hparts := List.flatMap_eq_nil_iff.1 hnone v hv
    exact dropped_eq_nil_iff.1 ((parts_dropped_eq_nil_iff (history_filled hv)).1 hparts)
  · intro hquiet
    refine ⟨?_, ?_, ?_⟩
    · have hnone :
          ((history digit calls).flatMap fun v => parts (dropped digit v.2 v.1.1)) = [] := by
        rw [List.flatMap_eq_nil_iff]
        intro v hv
        rw [dropped_eq_nil_iff.2 (hquiet v hv)]
        rfl
      have hperm := handleAll_perm digit calls
      rwa [hnone, List.nil_append] at hperm
    · exact fun v hv key d hd hidle => idle_returned_of_quiet (hquiet v hv) hd hidle
    · exact fun v hv key d hd => removed_returned_of_quiet (hquiet v hv) hd

end Runs

def anyPart : HTTPSession where
  reqIP := 167772161
  host := "files"
  uri := "/four"
  status := 206
  contentRange := "bytes 2-3/4".toList
  resBody := .content [3, 4]
  resPBytes := 2

def otherPart : HTTPSession := { anyPart with uri := "/five" }

def ordinary : HTTPSession := { anyPart with status := 200 }

theorem idle_download_kept :
    let calls := [⟨anyPart, 1000, 1000⟩, ⟨ordinary, 2000, 2000⟩]
    Kept asciiDigit calls ∧ (handleAll asciiDigit calls).2.length = 2 := by
  intro calls
  have hquiet : ∀ v ∈ history asciiDigit calls, dropped asciiDigit v.2 v.1.1 = [] := by decide
  exact ⟨(sessions_kept_iff asciiDigit calls).2 fun v hv => dropped_eq_nil_iff.1 (hquiet v hv),
    by decide⟩

/-- An unfinished download that is idle when another part comes is taken out of the table and
not returned. -/
theorem idle_download_dropped :
    let calls := [⟨anyPart, 1000, 1000⟩, ⟨otherPart, 2000, 2000⟩]
    (handleAll asciiDigit calls).2 = [] ∧ parked (handleAll asciiDigit calls).1 = [otherPart] ∧
      ¬ Kept asciiDigit calls := by
  intro calls
  have hreturned : (handleAll asciiDigit calls).2 = [] := by decide
  have hparked : parked (handleAll asciiDigit calls).1 = [otherPart] := by decide
  refine ⟨hreturned, hparked, fun h => ?_⟩
  have hlen := h.conserved.length_eq
  rw [hreturned, hparked] at hlen
  exact absurd hlen (by decide)

end CloudHands.PartContent
