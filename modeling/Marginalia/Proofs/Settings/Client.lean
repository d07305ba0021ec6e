import Marginalia.Proofs.Overlay.Gutter
import Marginalia.Proofs.Path

/-! The client of the settings. It has a name, whatever the host gives or leaves out, and no two
spellings of its executable name it differently. As the markers of the standard rule all carry this
client, none of them is without a name (`Settings.client_has_name`). -/
namespace Marginalia

namespace Settings

/-- No name is configured, or none that could be shown. -/
def Unnamed (s : Settings) : Prop := ∀ name ∈ s.clientName, name = ""

/-- The ways to a name of the client. Settings leave one only. -/
inductive Names (s : Settings) : String → Prop
  | configured {name : String} (h : s.clientName = some name) (hsome : name ≠ "") : Names s name
  | executable {path : Path} {last stem : String} (h : s.Unnamed) (hpath : s.executable = some path)
      (hlast : path.LastName last) (hstem : Path.Stem last stem) : Names s stem
  | fallback (h : s.Unnamed) (hnone : ∀ path ∈ s.executable, ∀ last, ¬path.LastName last) :
      Names s fallbackName

variable {s t : Settings} {name : String}

theorem displayName_of_configured (h : s.clientName = some name) (hsome : name ≠ "") :
    s.displayName = name := by
  simp [displayName, h, hsome]

theorem displayName_of_unnamed (h : s.Unnamed) :
    s.displayName = (s.executable.bind Path.stem?).getD fallbackName := by
  unfold displayName
  cases hname : s.clientName with
  | none => rfl
  | some name =>
    obtain rfl := h name hname
    rfl

theorem names_displayName (s : Settings) : s.Names s.displayName := by
  by_cases h : s.Unnamed
  · rw [displayName_of_unnamed h]
    cases hstem : s.executable.bind Path.stem? with
    | some stem =>
      obtain ⟨path, hpath, hstem⟩ := Option.bind_eq_some_iff.mp hstem
      obtain ⟨last, hlast, hstem⟩ := Path.stem?_eq_some_iff.mp hstem
      exact .executable h hpath hlast hstem
    | none =>
      refine .fallback h fun path hpath last hlast => ?_
      have hsome := Path.stem?_eq_some_iff.mpr ⟨last, hlast, Path.stem_stemOf last⟩
      exact Option.some_ne_none _ (hsome.symm.trans (Option.bind_eq_none_iff.mp hstem path hpath))
  · obtain ⟨name, hname, hsome⟩ : ∃ name ∈ s.clientName, name ≠ "" := by
      simpa [Unnamed] using h
    rw [displayName_of_configured hname hsome]
    exact .configured hname hsome

theorem Names.displayName_eq (h : s.Names name) : s.displayName = name := by
  cases h with
  | configured h hsome => exact displayName_of_configured h hsome
  | executable h hpath hlast hstem =>
    rw [displayName_of_unnamed h, hpath, Option.bind_some,
      Path.stem?_eq_some_iff.mpr ⟨_, hlast, hstem⟩, Option.getD_some]
  | fallback h hnone =>
    rw [displayName_of_unnamed h]
    cases hstem : s.executable.bind Path.stem? with
    | none => rfl
    | some stem =>
      obtain ⟨path, hpath, hstem⟩ := Option.bind_eq_some_iff.mp hstem
      obtain ⟨last, hlast, -⟩ := Path.stem?_eq_some_iff.mp hstem
      exact absurd hlast (hnone path hpath last)

theorem Names.ne_empty (h : s.Names name) : name ≠ "" := by
  cases h with
  | configured h hsome => exact hsome
  | executable h hpath hlast hstem => exact (hstem.part hlast.proper.1).1
  | fallback h hnone => decide

theorem displayName_congr (hname : t.clientName = s.clientName)
    (hpath : Option.Rel (· ≈ ·) t.executable s.executable) : t.displayName = s.displayName := by
  have hstem : t.executable.bind Path.stem? = s.executable.bind Path.stem? := by
    generalize t.executable = p, s.executable = q at hpath
    cases hpath with
    | some h => exact Path.stem?_congr h
    | none => rfl
  unfold displayName displayName.ofExecutable
  rw [hname, hstem]

end Settings

/-- The markers of one client: those that the rule makes, those in the groups and those that the
user sees. -/
structure Overlay.Serves (client : Client) (x : Outcome) : Prop where
  made : ∀ setting d m, x.1.rule setting d = some m → m.client = client
  held : ∀ d g, x.1.group? d = some g → ∀ m ∈ g.markers, m.client = client
  shown : ∀ h e m, (Screen.applyAll {} x.calls).live? h = some (e, m) → m.client = client

theorem Overlay.serves_handleAll {s : Settings} {events : List Event} (h : Plain s events) :
    Serves s.client ((start s).handleAll events) := by
  have hmakes := MarkerRule.makes_client s.client
  have hlinked := (Linked.start hmakes).handleAll fun theme rule filter hmem =>
    h theme rule filter hmem ▸ hmakes
  have hmirrors := ((change_handleAll (start s) events).reflected (Mirrors.start s)).2
  refine ⟨fun setting d m hm => ?_, fun d g hg => ?_, fun k e m hlive => ?_⟩
  · have hsingle : [d].filterMap (((start s).handleAll events).1.rule setting) = [m] := by
      simp [hm]
    have hall := hlinked.makes.made setting [d] (by simp [hsingle])
    rw [hsingle] at hall
    exact hall m List.mem_cons_self
  · obtain ⟨r, -, hall⟩ := hlinked.linked hg
    exact hall
  · obtain ⟨g, hg, hm⟩ := (hmirrors.live e k m).mp ⟨e, hlive, Setoid.refl e⟩
    obtain ⟨r, -, hall⟩ := hlinked.linked hg
    exact hall m (List.mem_of_getElem? (MarkerGroup.find?_eq_some_iff.mp hm).2)

namespace Settings

/-- The name is told by the settings as `Names` says. A stem is some of the last name of its path,
and how the path is spelled does not matter. -/
theorem client_has_name (s : Settings) :
    (∀ name, s.client.name = name ↔ s.Names name) ∧ s.client.name ≠ "" ∧
      (∀ (path : Path) (last : String), path.LastName last → ∃ stem, path.stem? = some stem ∧
        Path.Stem last stem ∧ stem ≠ "" ∧ stem.toList <+: last.toList) ∧
      (∀ t : Settings, t.clientName = s.clientName →
        Option.Rel (· ≈ ·) t.executable s.executable → t.client.name = s.client.name) ∧
      ∀ events, Overlay.Plain s events →
        Overlay.Serves s.client ((Overlay.start s).handleAll events) := by
  refine ⟨fun name => ⟨?_, Names.displayName_eq⟩, s.names_displayName.ne_empty,
    fun path last hlast => ?_, fun t => displayName_congr, fun events => Overlay.serves_handleAll⟩
  · rintro rfl
    exact s.names_displayName
  · have hstem := Path.stem_stemOf last
    exact ⟨_, Path.stem?_eq_some_iff.mpr ⟨last, hlast, hstem⟩, hstem, hstem.part hlast.proper.1⟩

/-- A hidden file whose name ends in a dot, and slashes behind it. -/
example : ({ clientName := some "", executable := some ⟨"/opt//.lang.server.//./"⟩ } :
    Settings).client.name = ".lang.server" := by decide

end Settings

end Marginalia
