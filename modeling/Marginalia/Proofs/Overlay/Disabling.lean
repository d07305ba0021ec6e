import Marginalia.Proofs.Overlay.Gutter

/-! Groups that are greyed out. A group keeps its number as long as it is alive, and its number is
never given out again, so that what is known of a number stays known: greyed out once, a group
is never enabled again (`disabled_handleAll`), and only a new one is. -/
namespace Marginalia

theorem MarkerGroup.enabled_disable (g : MarkerGroup) (theme : Theme) :
    (g.disable theme).enabled = false := by
  unfold disable
  split
  · rfl
  · rename_i hoff
    simpa using hoff

/-- Greying out brings a new value to each marker, behind the same handle. -/
theorem MarkerGroup.entries_disable {g : MarkerGroup} (hon : g.enabled = true) (theme : Theme) :
    (g.disable theme).entries = g.entries.map fun e => (e.1, e.2.recolor .disabled theme) := by
  unfold disable entries
  rw [if_pos hon, List.zipIdx_map, List.map_map, List.map_map]
  rfl

namespace Overlay

variable {o : Overlay} {d e : Path} {g : MarkerGroup}

/-- Where a group comes from that a document has after an operation. -/
inductive Origin (o : Overlay) (d : Path) : MarkerGroup → Prop
  | kept {g : MarkerGroup} (before : o.groups.find? d = some g) : Origin o d g
  | greyed {g : MarkerGroup} (before : o.groups.find? d = some g) (theme : Theme) :
      Origin o d (g.disable theme)
  | restyled {g : MarkerGroup} (before : o.groups.find? d = some g) (theme : Theme) :
      Origin o d (g.restyle theme)
  | made (markers : List Marker) : Origin o d { number := o.nextGroup, markers }

theorem origin_discard (hg : (o.discard e).1.groups.find? d = some g) : o.Origin d g :=
  .kept (find?_of_discard hg).2

theorem origin_install {markers : List Marker}
    (hg : (o.install e markers).1.groups.find? d = some g) : o.Origin d g := by
  rw [install_eq] at hg
  cases markers with
  | nil => exact origin_discard hg
  | cons m ms =>
    change ((o.discard e).1.add e (m :: ms)).1.groups.find? d = some g at hg
    rw [find?_add, nextGroup_discard] at hg
    split at hg
    · cases hg
      exact .made (m :: ms)
    · exact origin_discard hg

theorem origin_report {editor : Editor} {ds : List Diagnostic} {revision : Option Revision}
    (hg : (o.report editor e ds revision).1.groups.find? d = some g) : o.groups.find? d = some g := by
  rw [report_fst] at hg
  exact (find?_of_discard hg).2

theorem origin_display {editor : Editor} {revision : Revision}
    (hg : (o.display editor e revision).1.groups.find? d = some g) : o.Origin d g := by
  cases hbuffer : editor.buffer e with
  | none =>
    rw [display_of_hidden hbuffer] at hg
    exact .kept hg
  | some text =>
    rw [display_fst hbuffer] at hg
    unfold placeMarkers at hg
    split at hg
    · exact origin_install hg
    · split at hg
      · exact .kept hg
      · exact origin_discard hg

/-- The report that comes before only takes a group away. -/
theorem origin_publish {editor : Editor} {ds : List Diagnostic} {revision : Option Revision}
    (hg : (o.publish editor e ds revision).1.groups.find? d = some g) : o.Origin d g := by
  cases hlive : editor.revision e with
  | none =>
    rw [(publish_of_unknown hlive o ds revision).1] at hg
    exact .kept (origin_report hg)
  | some live =>
    rw [publish_of_known hlive] at hg
    cases origin_display hg with
    | kept before => exact .kept (origin_report before)
    | greyed before theme => exact .greyed (origin_report before) theme
    | restyled before theme => exact .restyled (origin_report before) theme
    | made markers =>
      have hnext : (o.report editor e ds revision).1.nextGroup = o.nextGroup := by rw [report_fst]
      rw [hnext]
      exact .made markers

theorem origin_disable (hg : (o.disable e).1.groups.find? d = some g) : o.Origin d g := by
  rw [find?_disable] at hg
  split at hg
  · obtain ⟨k, hk, rfl⟩ := Option.map_eq_some_iff.mp hg
    exact .greyed hk o.theme
  · exact .kept hg

theorem origin_restyle {theme : Theme} (hg : (o.restyle theme).1.groups.find? d = some g) :
    o.Origin d g := by
  rw [find?_restyle] at hg
  obtain ⟨k, hk, rfl⟩ := Option.map_eq_some_iff.mp hg
  exact .restyled hk theme

theorem origin_handle {event : Event} (hg : (o.handle event).1.groups.find? d = some g) :
    o.Origin d g := by
  cases event with
  | equip theme rule filter => exact .kept hg
  | command editor command =>
    cases command with
    | report e ds revision => exact .kept (origin_report hg)
    | publish e ds revision => exact origin_publish hg
    | display e revision => exact origin_display hg
    | hide e => exact origin_discard hg
    | clear =>
      change (o.clear editor).1.groups.find? d = some g at hg
      rw [find?_clear] at hg
      cases hg
    | disable e => exact origin_disable hg
    | restyle theme => exact origin_restyle hg
    | setLayer layer =>
      change (o.setLayer editor layer).1.groups.find? d = some g at hg
      unfold setLayer at hg
      split at hg <;> exact .kept hg
    | _ => exact .kept hg

/-- An older group has its number and its document, and is not enabled unless it was. -/
theorem Origin.older (h : o.Origin d g) (hold : g.number < o.nextGroup) :
    ∃ k, o.groups.find? d = some k ∧ k.number = g.number ∧
      (k.enabled = false → g.enabled = false) := by
  cases h with
  | kept before => exact ⟨g, before, rfl, id⟩
  | @greyed k before theme =>
    exact ⟨k, before, (k.number_disable theme).symm, fun _ => k.enabled_disable theme⟩
  | @restyled k before theme => exact ⟨k, before, rfl, id⟩
  | made markers => exact absurd hold (Nat.lt_irrefl _)

/-- A group whose number no group had is new, and enabled. -/
theorem Origin.enabled_of_new (h : o.Origin d g)
    (hnew : ∀ k, o.groups.find? d = some k → k.number ≠ g.number) : g.enabled = true := by
  cases h with
  | kept before => exact absurd rfl (hnew g before)
  | @greyed k before theme => exact absurd (k.number_disable theme).symm (hnew k before)
  | @restyled k before theme => exact absurd rfl (hnew k before)
  | made markers => rfl

theorem nextGroup_le_handle (o : Overlay) (event : Event) :
    o.nextGroup ≤ (o.handle event).1.nextGroup := by
  obtain ⟨sizes, -, -, hnext⟩ := (change_handle o event).exists_sizes
  omega

/-- All groups of a number that was given out stay greyed out. -/
theorem disabled_handleAll {number : Nat} (hold : number < o.nextGroup)
    (hoff : ∀ d g, o.groups.find? d = some g → g.number = number → g.enabled = false)
    (events : List Event) :
    ∀ d g, (o.handleAll events).1.groups.find? d = some g → g.number = number →
      g.enabled = false := by
  induction events generalizing o with
  | nil => exact hoff
  | cons event rest ih =>
    refine ih (Nat.lt_of_lt_of_le hold (o.nextGroup_le_handle event)) fun d g hg hnumber => ?_
    obtain ⟨k, hk, hsame, hkeeps⟩ := (origin_handle hg).older (hnumber ▸ hold)
    exact hkeeps (hoff d k hk (hsame.trans hnumber))

/-- An overlay at any time of its life has given out the numbers of its groups. -/
theorem numbered_handleAll (settings : Settings) (events : List Event) :
    Numbered ((start settings).handleAll events).1 :=
  ((change_handleAll _ events).reflected (Mirrors.start settings)).2.toNumbered

/-- Greying out a group that is enabled tells the screen of each marker once, in order. -/
theorem effects_disable (hg : o.groups.find? d = some g) (hon : g.enabled = true) :
    (o.disable d).2 = g.entries.map fun x =>
      .draw (.updateMarker d x.1 (x.2.recolor .disabled o.theme)) := by
  unfold disable
  rw [hg]
  simp only [hon, if_true, MarkerGroup.entries_disable hon, List.map_map]
  rfl

/-- A group that is greyed out stays so while it is alive; to grey it out takes one update for each of
its markers and leaves other groups alone, to do so again takes nothing; and a new group, even of the
same document, is enabled. -/
theorem disabling_lasts (settings : Settings) (before after : List Event) :
    let o := ((start settings).handleAll before).1
    let later := (o.handleAll after).1
    (∀ d g, o.group? d = some g → g.enabled = false →
      ∀ e k, later.group? e = some k → k.number = g.number → k.enabled = false) ∧
    (∀ d, (∀ g, o.group? d = some g → g.enabled = false) → o.disable d = (o, []) ∧
      ∀ s : Session, s.overlay = o → s.perform (.disable d) = { session := s }) ∧
    (∀ d g, o.group? d = some g → g.enabled = true →
      (o.disable d).2 = g.entries.map (fun x =>
        .draw (.updateMarker d x.1 (x.2.recolor .disabled o.theme))) ∧
      (∃ k, (o.disable d).1.group? d = some k ∧ k.number = g.number ∧ k.enabled = false ∧
        k.markers = g.markers.map (·.recolor .disabled o.theme)) ∧
      ∀ e, ¬e ≈ d → (o.disable d).1.group? e = o.group? e) ∧
    ∀ event d k, (o.handle event).1.group? d = some k →
      (∀ g, o.group? d = some g → g.number ≠ k.number) → k.enabled = true := by
  intro o later
  have hn : Numbered o := numbered_handleAll settings before
  refine ⟨fun d g hg hoff => ?_, fun d hidle => ?_, fun d g hg hon => ?_, ?_⟩
  · -- Only this document can have a group of the number, whatever spelling it is asked for by.
    apply disabled_handleAll (hn.lt_next hg)
    intro e k hk hnumber
    have hed := hn.inj hk hg hnumber
    have hsame : o.groups.find? e = some g := (find?_congr o hed).trans hg
    rw [hk] at hsame
    cases hsame
    exact hoff
  · have hsame : o.disable d = (o, []) := disable_of_idle hidle
    refine ⟨hsame, fun s hs => ?_⟩
    change s.enact (s.overlay.disable d) = _
    rw [hs, hsame, ← hs]
    rfl
  · have hgroup : o.groups.find? d = some g := hg
    have hgrey : (o.disable d).1.groups.find? d = some (g.disable o.theme) := by
      rw [find?_disable, if_pos (Setoid.refl d), hgroup, Option.map_some]
    have hmarkers : (g.disable o.theme).markers = g.markers.map (·.recolor .disabled o.theme) := by
      unfold MarkerGroup.disable
      rw [if_pos hon]
    refine ⟨effects_disable hgroup hon, ⟨_, hgrey, g.number_disable _, g.enabled_disable _,
      hmarkers⟩, fun e hother => ?_⟩
    exact (find?_disable o d e).trans (if_neg hother)
  · exact fun event d k hk hnew => (origin_handle hk).enabled_of_new hnew

end Overlay

namespace Session

/-- The group of the one error is greyed out, and kept with another theme by a display of its report
over the edited text. -/
theorem disabling_lasts_edited :
    let s := edited.run [.disable ⟨"//a"⟩]
    let later := s.run [.restyle .standard, .display ⟨"/a"⟩ ⟨2, by decide, by decide⟩]
    ∃ g k, s.overlay.group? ⟨"/a"⟩ = some g ∧ g.enabled = false ∧
      later.overlay.group? ⟨"/a"⟩ = some k ∧ k.number = g.number ∧ k.enabled = false := by
  intro s later
  let first : List Command :=
    [.openFile ⟨"/a"⟩ (.ofString "abc") ⟨1, by decide, by decide⟩,
      .publish ⟨"/a"⟩ [⟨⟨⟨0, 0⟩, ⟨0, 1⟩⟩, some .error, "m"⟩] (some ⟨1, by decide, by decide⟩),
      .insert ⟨"/a"⟩ 0 (.ofString "x")]
  let past := first ++ [.disable ⟨"//a"⟩]
  let recent : List Command := [.restyle .standard, .display ⟨"/a"⟩ ⟨2, by decide, by decide⟩]
  have hrun : s = (start {}).run past := ((start {}).run_append first _).symm
  have hs : s.overlay = ((Overlay.start {}).handleAll ((start {}).events past)).1 := by
    rw [hrun]
    exact ((start {}).run_follows past).1
  have hlater : later.overlay = (s.overlay.handleAll (s.events recent)).1 :=
    (s.run_follows recent).1
  have hlasts := (Overlay.disabling_lasts {} ((start {}).events past) (s.events recent)).1
  rw [← hs, ← hlater] at hlasts
  obtain ⟨g, hg⟩ : ∃ g, s.overlay.group? ⟨"/a"⟩ = some g :=
    Option.isSome_iff_exists.mp (by decide)
  obtain ⟨k, hk⟩ : ∃ k, later.overlay.group? ⟨"/a"⟩ = some k :=
    Option.isSome_iff_exists.mp (by decide)
  have hoff : (s.overlay.group? ⟨"/a"⟩).map (·.enabled) = some false := by decide
  have hsame : (later.overlay.group? ⟨"/a"⟩).map (·.number) =
      (s.overlay.group? ⟨"/a"⟩).map (·.number) := by decide
  rw [hg, Option.map_some, Option.some.injEq] at hoff
  rw [hg, hk, Option.map_some, Option.map_some, Option.some.injEq] at hsame
  exact ⟨g, k, hg, hoff, hk, hsame, hlasts ⟨"/a"⟩ g hg hoff ⟨"/a"⟩ k hk hsame⟩

end Session

end Marginalia
