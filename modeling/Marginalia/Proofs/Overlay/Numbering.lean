import Marginalia.Proofs.Overlay.Mirror

/-! The handles that an overlay gives out. Its groups are numbered one after the other, and none is
empty, so that no handle is ever given out twice (`Change.exists_sizes`, `nodup_handlesFrom`). -/
namespace Marginalia.Overlay
open MarkerGroup

/-- The handles of groups of some sizes under consecutive numbers. -/
def handlesFrom (next : Nat) : List Nat → List Handle
  | [] => []
  | size :: sizes => handlesOf next size ++ handlesFrom (next + 1) sizes

theorem handlesFrom_append (next : Nat) (sizes more : List Nat) :
    handlesFrom next (sizes ++ more) =
      handlesFrom next sizes ++ handlesFrom (next + sizes.length) more := by
  induction sizes generalizing next with
  | nil => rfl
  | cons size sizes ih =>
    have hnext : next + 1 + sizes.length = next + (size :: sizes).length := by
      simp only [List.length_cons]
      omega
    simp only [List.cons_append, handlesFrom, ih, hnext, List.append_assoc]

theorem bounds_of_mem_handlesFrom {next : Nat} {sizes : List Nat} {h : Handle}
    (hh : h ∈ handlesFrom next sizes) : next ≤ h.group ∧ h.group < next + sizes.length := by
  induction sizes generalizing next with
  | nil => cases hh
  | cons size sizes ih =>
    simp only [handlesFrom, List.mem_append, mem_handlesOf] at hh
    simp only [List.length_cons]
    rcases hh with ⟨rfl, _⟩ | hh
    · omega
    · have hb := ih hh
      omega

theorem nodup_handlesFrom (next : Nat) (sizes : List Nat) : (handlesFrom next sizes).Nodup := by
  induction sizes generalizing next with
  | nil => exact List.nodup_nil
  | cons size sizes ih =>
    apply List.nodup_append.mpr
    refine ⟨nodup_handlesOf _ _, ih _, fun h hh k hk heq => ?_⟩
    have hgroup := (mem_handlesOf.mp hh).1
    have hbound := (bounds_of_mem_handlesFrom hk).1
    rw [← heq] at hbound
    omega

theorem added_of_isPaint {calls : List ScreenCall} (h : ∀ call ∈ calls, call.isPaint = true) :
    Screen.added calls = [] := by
  apply List.filterMap_eq_nil_iff.mpr
  intro call hcall
  cases call with
  | addMarker d k m => cases h _ hcall
  | _ => rfl

theorem added_remove (d : Path) (hs : List Handle) :
    Screen.added (hs.map (.removeMarker d)) = [] := by
  simp [Screen.added, ScreenCall.added?]

theorem added_updates (us : List (Path × Handle × Marker)) :
    Screen.added (Screen.updates us) = [] := by
  simp [Screen.added, Screen.updates, ScreenCall.added?]

theorem added_add (o : Overlay) (d : Path) (markers : List Marker) :
    Screen.added (o.add d markers).calls = handlesOf o.nextGroup markers.length := by
  rw [calls_add, Screen.added, List.filterMap_map]
  exact (congrFun List.filterMap_eq_map _).trans (map_fst_entries _)

/-- A change gives out the handles of some more groups. -/
theorem Change.exists_sizes {o : Overlay} {x : Outcome} (hx : Change o x) :
    ∃ sizes : List Nat, (∀ size ∈ sizes, 0 < size) ∧
      Screen.added x.calls = handlesFrom o.nextGroup sizes ∧
      x.1.nextGroup = o.nextGroup + sizes.length := by
  induction hx with
  | keep groups next paints =>
    exact ⟨[], by simp, added_of_isPaint paints, next⟩
  | discard o d =>
    refine ⟨[], by simp, ?_, nextGroup_discard o d⟩
    cases hg : o.groups.find? d with
    | none =>
      rw [discard_of_none hg]
      rfl
    | some g =>
      rw [calls_discard hg]
      exact added_remove d g.handles
  | @add o d markers free some =>
    refine ⟨[markers.length], ?_, ?_, rfl⟩
    · simpa using List.length_pos_iff.mpr some
    · rw [added_add]
      simp [handlesFrom]
  | disable o d =>
    refine ⟨[], by simp, ?_, nextGroup_disable o d⟩
    obtain ⟨us, hus⟩ := exists_calls_disable o d
    rw [hus]
    exact added_updates us
  | restyle o theme =>
    refine ⟨[], by simp, ?_, rfl⟩
    rw [calls_restyle]
    exact added_updates _
  | @andThen o x f _ _ first second =>
    obtain ⟨sizes, hpos, hadded, hnext⟩ := first
    obtain ⟨more, hmore, hadded', hnext'⟩ := second
    refine ⟨sizes ++ more, ?_, ?_, ?_⟩
    · simp only [List.mem_append]
      rintro size (hs | hs)
      · exact hpos size hs
      · exact hmore size hs
    · rw [Outcome.calls_andThen, Screen.added_append, hadded, hadded', hnext, handlesFrom_append]
    · change (f x.1).1.nextGroup = _
      rw [hnext', hnext, List.length_append]
      omega

end Marginalia.Overlay
