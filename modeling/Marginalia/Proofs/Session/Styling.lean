import Marginalia.Proofs.Document.Styling
import Marginalia.Proofs.Overlay.Gutter
import Marginalia.Proofs.Session.Locality

/-! Markers that are alive look as the current theme has them, in the overlay and on the screen, in
whatever order they were made, greyed out and given another theme (`markers_suit_theme`). -/
namespace Marginalia.Session

/-- Sessions in which the host chooses theme and filter while there is no report, and leaves the
standard rule in its place. -/
inductive Furnished (settings : Settings) : Session → Prop
  | start : Furnished settings (start settings)
  | equip {s : Session} (before : Furnished settings s) (unreported : s.overlay.reports.isEmpty = true)
      (theme : Theme) (filter : Filter) :
      Furnished settings
        { s with overlay := s.overlay.equip theme (.standard settings.client) filter }
  | perform {s : Session} (before : Furnished settings s) (command : Command) :
      Furnished settings (s.perform command).session

variable {settings : Settings} {s : Session}

theorem Furnished.run (hs : s.Furnished settings) (commands : List Command) :
    (s.run commands).Furnished settings := by
  induction commands generalizing s with
  | nil => exact hs
  | cons command rest ih => exact ih (hs.perform command)

theorem Furnished.reachable (hs : s.Furnished settings) : Reachable s := by
  induction hs with
  | start => exact .start settings
  | equip _ _ theme filter ih => exact ih.equip theme _ filter
  | perform _ command ih => exact ih.perform command

/-- Without reports there are no markers that another theme would leave as they are. -/
theorem Furnished.find?_of_unreported (hs : s.Furnished settings)
    (hnone : s.overlay.reports.isEmpty = true) (d : Path) : s.overlay.groups.find? d = none := by
  have hlinked : s.overlay.Linked fun ms ds => ms ≠ [] ∧ ms.length ≤ ds.length := by
    clear hnone
    induction hs with
    | start => exact .start (MarkerRule.makes_some _)
    | equip _ _ _ _ ih => exact ⟨MarkerRule.makes_some _, ih.linked⟩
    | @perform s _ command ih =>
      rw [(s.perform_follows command).overlay]
      exact ih.respond s.editor command
  apply Option.eq_none_iff_forall_ne_some.mpr
  intro g hg
  obtain ⟨r, hr, -⟩ := hlinked.linked hg
  have hnil := (SortedMap.entries_eq_nil_iff _).mp ((SortedMap.isEmpty_iff _).mp hnone) d
  rw [show s.overlay.reports.find? d = none from hnil] at hr
  cases hr

theorem Furnished.coherent (hs : s.Furnished settings) (d : Path) :
    (s.view d).Coherent settings.client := by
  induction hs with
  | start => exact DocumentView.coherent_of_bare rfl rfl
  | @equip s before unreported theme filter _ =>
    refine DocumentView.coherent_of_bare rfl ?_
    change (s.overlay.groups.find? d).map _ = none
    rw [before.find?_of_unreported unreported, Option.map_none]
  | @perform s before command ih =>
    rw [view_perform before.reachable.sound.unmasked]
    split
    · exact DocumentView.coherent_act ih command
    · exact ih

theorem Furnished.suits (hs : s.Furnished settings) {d : Path} {g : MarkerGroup}
    (hg : s.overlay.groups.find? d = some g) : g.Suits s.overlay.theme := by
  have hview : (s.view d).group = some g.unnumbered := by
    change (s.overlay.groups.find? d).map _ = _
    rw [hg, Option.map_some]
  have hsuits : g.unnumbered.Suits _ := (hs.coherent d).suits hview
  exact hsuits

theorem theme_restyle (s : Session) (theme : Theme) :
    (s.perform (.restyle theme)).session.overlay.theme = theme :=
  congrArg Overlay.theme (s.perform_follows (.restyle theme)).overlay

/-- Every marker, of the overlay and of the screen, has the colour and the icon of the current theme,
and a slot that tells whether its group is enabled, and else whether it is for an error. -/
theorem markers_suit_theme (hs : s.Furnished settings) :
    (∀ d g, s.overlay.group? d = some g →
      ∀ m ∈ g.markers, m.Suits s.overlay.theme g.enabled) ∧
    ∀ h m, s.screen.marker? h = some m → ∃ d g, s.overlay.group? d = some g ∧
      h.group = g.number ∧ g.markers[h.index]? = some m ∧ m.Suits s.overlay.theme g.enabled := by
  refine ⟨fun d g hg => hs.suits hg, fun h m hm => ?_⟩
  obtain ⟨⟨d, k⟩, hlive, rfl⟩ := Option.map_eq_some_iff.mp hm
  obtain ⟨g, hg, hk⟩ := (hs.reachable.sound.mirrors.live d h k).mp ⟨d, hlive, Setoid.refl d⟩
  obtain ⟨hnumber, hindex⟩ := MarkerGroup.find?_eq_some_iff.mp hk
  exact ⟨d, g, hg, hnumber, hindex, hs.suits hg k (List.mem_of_getElem? hindex)⟩

/-- The markers of an error and of a hint are made under a theme of the host, and greyed out. -/
def greyed : Session :=
  { start {} with
    overlay := (start {}).overlay.equip (.ofValues 1 2 ⟨3⟩ ⟨4⟩ ⟨5⟩ "e" "w")
      (.standard ({} : Settings).client) fun _ ds => ds }.run
    [.openFile ⟨"/a"⟩ (.ofString "abc") default,
      .publish ⟨"/a"⟩ [⟨⟨⟨0, 0⟩, ⟨0, 1⟩⟩, some .error, "m"⟩, ⟨⟨⟨0, 1⟩, ⟨0, 2⟩⟩, none, "n"⟩] none,
      .disable ⟨"//a"⟩]

theorem furnished_greyed : greyed.Furnished {} :=
  (Furnished.start.equip rfl _ _).run _

/-- The markers stay grey under another theme, in its colour. -/
theorem markers_suit_theme_greyed :
    let theme : Theme := .ofValues 1 2 ⟨6⟩ ⟨7⟩ ⟨8⟩ "E" "W"
    let s := (greyed.perform (.restyle theme)).session
    s.Furnished {} ∧ (s.screen.markers ⟨"/a"⟩).map (·.color) = [⟨8⟩, ⟨8⟩] ∧
      ∃ g, s.overlay.group? ⟨"/a"⟩ = some g ∧ ∀ m ∈ g.markers, m.Suits theme false := by
  intro theme s
  have hs : s.Furnished {} := furnished_greyed.perform (.restyle theme)
  obtain ⟨g, hg⟩ : ∃ g, s.overlay.group? ⟨"/a"⟩ = some g :=
    Option.isSome_iff_exists.mp (by decide)
  have hoff : (s.overlay.group? ⟨"/a"⟩).map (·.enabled) = some false := by decide
  rw [hg, Option.map_some, Option.some.injEq] at hoff
  have hsuits := (markers_suit_theme hs).1 ⟨"/a"⟩ g hg
  rw [hoff, theme_restyle] at hsuits
  exact ⟨hs, by decide, g, hg, hsuits⟩

end Marginalia.Session
