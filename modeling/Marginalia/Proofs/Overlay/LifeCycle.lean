import Marginalia.Proofs.Session.Reachable

/-! The handles of an overlay from its start to its end, whatever its editors show and its host asks
for. The calls of a lifetime are all allowed and leave no marker behind, so
that what was added balances with what was removed. -/
namespace Marginalia

namespace Screen

/-- A handle was added for a document, and was not removed since. -/
def AddedLast (past : List ScreenCall) (d : Path) (h : Handle) : Prop :=
  ∃ before e m after, past = before ++ .addMarker e h m :: after ∧ e ≈ d ∧ h ∉ removed after

theorem AddedLast.cons {past : List ScreenCall} {d : Path} {h : Handle}
    (ha : AddedLast past d h) (call : ScreenCall) : AddedLast (call :: past) d h := by
  obtain ⟨before, e, m, after, rfl, hed, hout⟩ := ha
  exact ⟨call :: before, e, m, after, rfl, hed, hout⟩

/-- A handle that is alive after an allowed call was alive already, or comes from that call. -/
theorem shows_apply {s : Screen} {call : ScreenCall} (hcall : s.Allows call) {d : Path}
    {h : Handle} (hs : (s.apply call).Shows d h) :
    s.Shows d h ∧ call.removed? ≠ some h ∨ ∃ e m, call = .addMarker e h m ∧ e ≈ d := by
  cases call with
  | setHighlights e l hs' => exact .inl ⟨hs, by simp [ScreenCall.removed?]⟩
  | addMarker e k m =>
    by_cases hk : h = k
    · subst hk
      obtain ⟨e', m', hl, hed⟩ := hs
      rw [live?_addMarker, if_pos rfl] at hl
      cases hl
      exact .inr ⟨e, m, rfl, hed⟩
    · rw [shows_congr ((s.live?_addMarker e k m h).trans (if_neg hk))] at hs
      exact .inl ⟨hs, by simp [ScreenCall.removed?]⟩
  | updateMarker e k m =>
    refine .inl ⟨?_, by simp [ScreenCall.removed?]⟩
    obtain ⟨e', m', hold, hee⟩ := hcall
    by_cases hk : h = k
    · subst hk
      obtain ⟨e'', m'', hl, hed⟩ := hs
      rw [live?_updateMarker hold, if_pos rfl] at hl
      cases hl
      exact ⟨e', m', hold, Setoid.trans hee hed⟩
    · rwa [shows_congr ((live?_updateMarker hold e m h).trans (if_neg hk))] at hs
  | removeMarker e k =>
    have hk : h ≠ k := by
      rintro rfl
      obtain ⟨e', m', hl, _⟩ := hs
      rw [live?_removeMarker, if_pos rfl] at hl
      cases hl
    rw [shows_congr ((s.live?_removeMarker e k h).trans (if_neg hk))] at hs
    exact .inl ⟨hs, fun heq => hk (Option.some.inj heq).symm⟩

theorem shows_applyAll {s : Screen} {calls : List ScreenCall} (hall : s.AllowsAll calls) {d : Path}
    {h : Handle} (hs : (s.applyAll calls).Shows d h) :
    s.Shows d h ∧ h ∉ removed calls ∨ AddedLast calls d h := by
  induction calls generalizing s with
  | nil => exact .inl ⟨hs, by simp [removed]⟩
  | cons call rest ih =>
    obtain ⟨hcall, hrest⟩ := hall
    rcases ih hrest hs with ⟨hafter, hout⟩ | hlater
    · rcases shows_apply hcall hafter with ⟨hbefore, hne⟩ | ⟨e, m, rfl, hed⟩
      · refine .inl ⟨hbefore, fun hin => ?_⟩
        obtain ⟨x, hx, hxh⟩ := List.mem_filterMap.mp hin
        rcases List.mem_cons.mp hx with rfl | hx
        · exact hne hxh
        · exact hout (List.mem_filterMap.mpr ⟨x, hx, hxh⟩)
      · exact .inr ⟨[], e, m, rest, rfl, hed, hout⟩
    · exact .inr (hlater.cons call)

/-- What comes before a call that needs a marker, in calls that are all allowed from the start. -/
theorem addedLast_of_allowsAll {past rest : List ScreenCall} {call : ScreenCall} {d : Path}
    {h : Handle} (hall : AllowsAll {} (past ++ call :: rest))
    (hneeds : ∀ s : Screen, s.Allows call → s.Shows d h) : AddedLast past d h := by
  obtain ⟨hpast, hcall, _⟩ := allowsAll_append.mp hall
  rcases shows_applyAll hpast (hneeds _ hcall) with ⟨⟨e, m, hl, _⟩, _⟩ | hadded
  · cases hl
  · exact hadded

end Screen

/-- How the calls of a whole lifetime use handles. -/
structure LifeCycle (calls : List ScreenCall) : Prop where
  /-- Groups count from one and are never empty, and their markers count from zero. -/
  numbered : ∃ sizes : List Nat, (∀ size ∈ sizes, 0 < size) ∧
    Screen.added calls = Overlay.handlesFrom 1 sizes
  distinct : (Screen.added calls).Nodup
  updated : ∀ past d h m rest, calls = past ++ .updateMarker d h m :: rest →
    Screen.AddedLast past d h
  removed : ∀ past d h rest, calls = past ++ .removeMarker d h :: rest → Screen.AddedLast past d h
  /-- In the end every handle was removed, and once only. -/
  ended : (Screen.removed calls).Perm (Screen.added calls)

namespace Overlay

/-- What can befall an overlay. Every command comes with what the editor shows at that time. -/
inductive Event where
  | equip (theme : Theme) (rule : MarkerRule) (filter : Filter)
  | command (editor : Editor) (command : Command)

def handle (o : Overlay) : Event → Outcome
  | .equip theme rule filter => (o.equip theme rule filter, [])
  | .command editor command => o.respond editor command

def handleAll (o : Overlay) : List Event → Outcome
  | [] => (o, [])
  | event :: rest => (o.handle event).andThen (·.handleAll rest)

/-- All that an overlay tells its screen. At its end it clears everything. -/
def lifetime (settings : Settings) (events : List Event) (last : Editor) : List ScreenCall :=
  (((start settings).handleAll events).andThen (·.clear last)).calls

theorem change_handle (o : Overlay) (event : Event) : Change o (o.handle event) := by
  cases event with
  | equip theme rule filter => exact .keep rfl rfl (by simp [Outcome.calls])
  | command editor command => exact change_respond o editor command

theorem change_handleAll (o : Overlay) (events : List Event) : Change o (o.handleAll events) := by
  induction events generalizing o with
  | nil => exact .silent o
  | cons event rest ih => exact .andThen (change_handle o event) (ih _)

/-- Operations that take away the group of one document, for one document after the other. -/
theorem find?_forEach (o : Overlay) (ds : List Path) {f : Overlay → Path → Outcome}
    (hf : ∀ o d e, (f o d).1.groups.find? e = if e ≈ d then none else o.groups.find? e)
    (e : Path) :
    (o.forEach ds f).1.groups.find? e =
      if ∃ d ∈ ds, e ≈ d then none else o.groups.find? e := by
  have hfold : ∀ x : Outcome,
      (ds.foldl (fun x d => x.andThen (f · d)) x).1.groups.find? e =
        if ∃ d ∈ ds, e ≈ d then none else x.1.groups.find? e := by
    induction ds with
    | nil => simp
    | cons d ds ih =>
      intro x
      rw [List.foldl_cons, ih, show (x.andThen (f · d)).1 = (f x.1 d).1 from rfl, hf]
      by_cases hd : e ≈ d <;> simp only [List.mem_cons, exists_eq_or_imp, hd, true_or, false_or,
        if_true, if_false, ite_self]
  exact hfold (o, [])

/-- No marker outlives a clearing, whether or not its document has a report. -/
theorem find?_clear (o : Overlay) (editor : Editor) (d : Path) :
    (o.clear editor).1.groups.find? d = none := by
  let hidden := (o.forEach o.reports.documents fun o d => o.hide editor d).1
  let forgotten : Overlay := { hidden with reports := {} }
  have hclear : (o.clear editor).1 = if forgotten.groups.isEmpty then forgotten
      else (forgotten.forEach forgotten.groups.keys discard).1 := by
    unfold clear Outcome.andThen
    dsimp only
    split <;> rfl
  rw [hclear]
  split
  · rename_i hempty
    exact (SortedMap.entries_eq_nil_iff _).mp ((SortedMap.isEmpty_iff _).mp hempty) d
  · rw [find?_forEach _ _ find?_discard]
    split
    · rfl
    · rename_i hkey
      apply SortedMap.find?_eq_none_iff.mpr
      exact fun k hk heq => hkey ⟨k, hk, Path.compare_eq_iff.mp heq⟩

/-- An overlay without groups shows nothing. -/
theorem Mirrors.keys_eq_nil {s : Screen} {o : Overlay} (hm : Mirrors s o)
    (hnone : ∀ d, o.groups.find? d = none) : s.byHandle.keys = [] := by
  have hdead : ∀ h, s.live? h = none := by
    intro h
    apply Option.eq_none_iff_forall_ne_some.mpr
    rintro ⟨d, m⟩ hl
    obtain ⟨g, hg, _⟩ := (hm.live d h m).mp ⟨d, hl, Setoid.refl d⟩
    rw [hnone] at hg
    cases hg
  unfold SortedMap.keys
  rw [(SortedMap.entries_eq_nil_iff _).mpr hdead]
  rfl

theorem handles_come_and_go (settings : Settings) (events : List Event) (last : Editor) :
    LifeCycle (lifetime settings events last) := by
  let before := (start settings).handleAll events
  have hchange : Change (start settings) (before.andThen (·.clear last)) :=
    .andThen (change_handleAll _ events) (change_clear _ last)
  obtain ⟨hall, hmirrors⟩ := hchange.reflected (Mirrors.start settings)
  obtain ⟨sizes, hpos, hadded, _⟩ := hchange.exists_sizes
  change Screen.AllowsAll {} (lifetime settings events last) at hall
  change Mirrors (Screen.applyAll {} (lifetime settings events last)) (before.1.clear last).1
    at hmirrors
  change Screen.added (lifetime settings events last) = handlesFrom 1 sizes at hadded
  refine ⟨⟨sizes, hpos, hadded⟩, ?_, ?_, ?_, ?_⟩
  · rw [hadded]
    exact nodup_handlesFrom 1 sizes
  · intro past d h m rest hcalls
    rw [hcalls] at hall
    exact Screen.addedLast_of_allowsAll hall fun _ hallowed => hallowed
  · intro past d h rest hcalls
    rw [hcalls] at hall
    exact Screen.addedLast_of_allowsAll hall fun _ hallowed => hallowed
  · have hperm := Screen.perm_of_allowsAll hall
    rw [hmirrors.keys_eq_nil (find?_clear before.1 last), List.append_nil] at hperm
    exact hperm.symm

end Overlay

namespace Session

/-- What a run tells the world outside. -/
def notices (s : Session) : List Command → List Notice
  | [] => []
  | command :: rest => (s.perform command).notices ++ (s.perform command).session.notices rest

/-- The commands of a run, each with what the editor shows when it comes. -/
def events (s : Session) : List Command → List Overlay.Event
  | [] => []
  | command :: rest => .command s.editor command :: (s.perform command).session.events rest

theorem run_follows (s : Session) (commands : List Command) :
    (s.run commands).overlay = (s.overlay.handleAll (s.events commands)).1 ∧
      (s.notices commands).filterMap Notice.call? =
        (s.overlay.handleAll (s.events commands)).calls := by
  induction commands generalizing s with
  | nil => exact ⟨rfl, rfl⟩
  | cons command rest ih =>
    have hf := s.perform_follows command
    obtain ⟨hover, hcalls⟩ := ih (s.perform command).session
    rw [hf.overlay] at hover hcalls
    refine ⟨hover, ?_⟩
    simp only [notices, events, Overlay.handleAll, Overlay.Outcome.calls_andThen,
      List.filterMap_append, hf.calls, hcalls]
    rfl

/-- A session that is run and finished makes the calls of a lifetime. -/
theorem calls_until_finish (settings : Settings) (commands : List Command) :
    let s := start settings
    (s.notices commands ++ (s.run commands).finish.notices).filterMap Notice.call? =
      Overlay.lifetime settings (s.events commands) (s.run commands).editor := by
  intro s
  obtain ⟨hover, hcalls⟩ := s.run_follows commands
  have hfinish := ((s.run commands).perform_follows .clear).calls
  rw [hover] at hfinish
  unfold Overlay.lifetime
  rw [List.filterMap_append, hcalls, Overlay.Outcome.calls_andThen]
  exact congrArg (_ ++ ·) hfinish

end Session

end Marginalia
