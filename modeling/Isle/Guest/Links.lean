import Isle.Foundation.Run
import Isle.Go.Entries
import Isle.Go.Maps
import Mathlib.Data.Finset.Insert
import Mathlib.Data.Finset.Erase

/-!
# Links to the run paths of other containers

`mountAd`, `removeAd` and `clearMounts` of `guest/runc.go`. A container that advertises a run path
gets a link in the run directory of every other container, and the paths of these links are kept in
a set for the links to be removed at the end.

The set has the path of a link whether or not `os.Symlink` has made it, and `os.Remove` takes what
it finds: a file of the container itself, an empty directory, or the link of another advertisement
with the same name. `mountAd` passes over the container's own advertisements, and `removeAd` does
not.

To say what a call may remove, the links are traced: `made` has the entries that `mountAd` has
created and that are still there. `keeps_of_runWhile` has conditions under which nothing else is
removed, and all of them are in the end (`Careful`).
-/

namespace Guest.Links

open Filepath Entries

/-! ### The functions -/

/-- What a container advertises of its run directory. -/
structure AdvertiseRun where
  source : String
  name : String
  deriving DecidableEq, Repr

/-- The paths of a `mountStatus`, and the files. -/
structure Mounts where
  paths : Finset Path
  fs : Entries

/-- The run directory of a container. -/
def runDir (id : String) : Path := join ["run"] id

/-- Where the link of an advertisement goes. -/
def linkPath (id : String) (ad : AdvertiseRun) : Path := join (runDir id) ad.name

/-- Where that is. -/
def sourceRun (ad : AdvertiseRun) : Path := join (join ["var", "global-run"] ad.source) ad.name

/-- `mountAd`, and whether nothing but what is there keeps `os.Symlink` from making the link. There
is one kind of advertisements, and `nil`. -/
def mountAd (id : String) (m : Mounts) (ok : Bool) : Option AdvertiseRun → Mounts
  | none => m
  | some ad =>
    if ad.source = id then m
    else ⟨insert (linkPath id ad) m.paths, m.fs.symlink (sourceRun ad) (linkPath id ad) ok⟩

/-- `removeAd` -/
def removeAd (id : String) (m : Mounts) : Option AdvertiseRun → Mounts
  | none => m
  | some ad => ⟨m.paths.erase (linkPath id ad), m.fs.remove (linkPath id ad)⟩

/-- `clearMounts` -/
def clearMounts (order : MapOrder Path) (m : Mounts) : Mounts :=
  { m with fs := (order.keys m.paths).foldl remove m.fs }

/-- The calls that change the links. -/
inductive Call
  | mountAd (ad : Option AdvertiseRun) (ok : Bool)
  | removeAd (ad : Option AdvertiseRun)
  | clearMounts (order : MapOrder Path)

/-- One call. -/
def call (id : String) (m : Mounts) : Call → Mounts
  | .mountAd ad ok => mountAd id m ok ad
  | .removeAd ad => removeAd id m ad
  | .clearMounts order => clearMounts order m

/-! ### Links and their owners -/

/-- The state of a container, with the advertisements for which the links were made that are
there. -/
structure Traced extends Mounts where
  made : Path → Option AdvertiseRun

/-- No links have been made. -/
def Traced.start (fs : Entries) : Traced := ⟨⟨∅, fs⟩, fun _ ↦ none⟩

/-- What a call mounts. -/
def Call.mounted : Call → Option AdvertiseRun
  | .mountAd ad _ => ad
  | .removeAd _ | .clearMounts _ => none

/-- The owners after a call: an entry that was not there before was made by it, and one that is not
there any more has none. -/
def Traced.after (s : Traced) (a : Call) (t : Mounts) : Traced :=
  ⟨t, fun q ↦
    if t.fs.lookup q = none then none
    else if s.fs.lookup q = none then a.mounted
    else s.made q⟩

/-- One call. -/
def step (id : String) (s : Traced) (a : Call) : Option Traced :=
  some (s.after a (call id s.toMounts a))

/-- The links that a call may remove. -/
def Call.mayRemove (ad : AdvertiseRun) : Call → Prop
  | .mountAd _ _ => False
  | .removeAd x => x = some ad
  | .clearMounts _ => True

/-- **Links are removed only by their owner**, by a call that leads from one state to another. -/
structure RemovesOwn (s : Traced) (a : Call) (t : Traced) : Prop where
  /-- What is gone is a link that was made for an advertisement, and that the call may remove. -/
  removed : ∀ q, s.fs.lookup q ≠ none → t.fs.lookup q = none →
    ∃ ad, s.made q = some ad ∧ s.fs.lookup q = some (.link true (sourceRun ad)) ∧ a.mayRemove ad
  /-- In the end all of them are gone. -/
  cleared : ∀ order, a = .clearMounts order → ∀ q, t.made q = none

/-- The call, in a state, removes links only as their owner. -/
def Keeps (id : String) (s : Traced) (a : Call) : Prop :=
  ∀ t, step id s a = some t → RemovesOwn s a t

/-- **A careful call.** What is mounted has a plain name, which nothing has in the run directory but
a link that was made; and what is at the path of an advertisement that is removed, if anything is,
is the link that was made for it. -/
def Careful (id : String) (s : Traced) : Call → Prop
  | .mountAd none _ | .removeAd none | .clearMounts _ => True
  | .mountAd (some ad) _ => ad.source = id ∨ IsChildName ad.name ∧
      ∀ q, s.fs.locate (linkPath id ad) = some q → s.fs.lookup q ≠ none → s.made q ≠ none
  | .removeAd (some ad) =>
      ∀ q, s.fs.locate (linkPath id ad) = some q → s.fs.lookup q ≠ none → s.made q = some ad

/-! ### What holds along a careful run -/

/-- The files are those from before the first call, and the links that were made. -/
structure Inv (id : String) (fs₀ : Entries) (s : Traced) : Prop where
  base : ∀ q, s.made q = none → s.fs.lookup q = fs₀.lookup q
  made : ∀ q ad, s.made q = some ad → IsChildName ad.name ∧
    fs₀.locate (linkPath id ad) = some q ∧ fs₀.lookup q = none ∧
    s.fs.lookup q = some (.link true (sourceRun ad)) ∧ linkPath id ad ∈ s.paths
  paths : ∀ p ∈ s.paths, ∃ name, IsChildName name ∧ p = runDir id ++ [name] ∧
    ∀ q, fs₀.locate p = some q → fs₀.lookup q = none

section Invariant

variable {id : String} {fs₀ : Entries} {s : Traced}

theorem inv_start : Inv id fs₀ (.start fs₀) where
  base _ _ := rfl
  made q ad h := by cases h
  paths p hp := absurd hp (Finset.notMem_empty p)

theorem linkPath_of_isChildName {ad : AdvertiseRun} (h : IsChildName ad.name) :
    linkPath id ad = runDir id ++ [ad.name] :=
  join_of_isChildName h _

namespace Inv

theorem sub (h : Inv id fs₀ s) : Sub fs₀ s.fs := by
  intro q n hq
  cases hmade : s.made q with
  | none => rw [h.base q hmade, hq]
  | some ad =>
    have hnone := (h.made q ad hmade).2.2.1
    rw [hq] at hnone
    cases hnone

variable {fs : Entries} {q : Path}

/-- **No link is on the way to the run directory.** -/
theorem locate_iff (h : Inv id fs₀ s) (hlow : Sub fs₀ fs) (hhigh : Sub fs s.fs) {name : String} :
    fs.locate (runDir id ++ [name]) = some q ↔ fs₀.locate (runDir id ++ [name]) = some q := by
  have hdir : fs.directory (runDir id) = fs₀.directory (runDir id) := by
    cases hd : fs₀.directory (runDir id) with
    | some d => exact directory_mono hlow hd
    | none =>
      -- no link was made, since there was no place for it
      have hnone : ∀ r, s.made r = none := by
        intro r
        cases hr : s.made r with
        | none => rfl
        | some ad =>
          obtain ⟨hname, hloc, -⟩ := h.made r ad hr
          rw [linkPath_of_isChildName hname, locate_concat, hd] at hloc
          cases hloc
      have hback : Sub fs fs₀ := fun r n hr ↦ h.base r (hnone r) ▸ hhigh r n hr
      cases hd' : fs.directory (runDir id) with
      | none => rfl
      | some d =>
        have hd₀ := directory_mono hback hd'
        rw [hd] at hd₀
        cases hd₀
  rw [locate_concat, locate_concat, hdir]

/-- What has no owner is not there, or was there from the beginning. -/
theorem made_eq_none (h : Inv id fs₀ s) (hq : s.fs.lookup q = none) : s.made q = none := by
  cases hmade : s.made q with
  | none => rfl
  | some ad =>
    have hlink := (h.made q ad hmade).2.2.2.1
    rw [hq] at hlink
    cases hlink

/-- What is there and was not there before is a link that was made. -/
theorem made_of_lookup (h : Inv id fs₀ s) {n : Node} (hq : s.fs.lookup q = some n)
    (hq₀ : fs₀.lookup q = none) : ∃ ad, s.made q = some ad := by
  cases hmade : s.made q with
  | none =>
    rw [h.base q hmade, hq₀] at hq
    cases hq
  | some ad => exact ⟨ad, rfl⟩

/-- A call by which links go, and the paths of those that stay are kept. -/
theorem after_of_sub (h : Inv id fs₀ s) {a : Call} {t : Mounts} (hlow : Sub fs₀ t.fs)
    (hhigh : Sub t.fs s.fs) (hpaths : t.paths ⊆ s.paths)
    (hkeep : ∀ q ad, s.made q = some ad → t.fs.lookup q ≠ none → linkPath id ad ∈ t.paths) :
    Inv id fs₀ (s.after a t) := by
  -- an entry that is there has the owner it had
  have hmade : ∀ q n, t.fs.lookup q = some n → (s.after a t).made q = s.made q := by
    intro q n hq
    simp [Traced.after, hq, hhigh q n hq]
  refine ⟨fun q hq ↦ ?_, fun q ad hq ↦ ?_, fun p hp ↦ h.paths p (hpaths hp)⟩
  · show t.fs.lookup q = fs₀.lookup q
    cases hn : t.fs.lookup q with
    | none => exact (hlow.lookup_eq_none hn).symm
    | some n =>
      rw [hmade q n hn] at hq
      rw [← h.base q hq, hhigh q n hn]
  · cases hn : t.fs.lookup q with
    | none => simp [Traced.after, hn] at hq
    | some n =>
      rw [hmade q n hn] at hq
      obtain ⟨hname, hloc, hnone, hlink, -⟩ := h.made q ad hq
      refine ⟨hname, hloc, hnone, ?_, hkeep q ad hq (by simp [hn])⟩
      rw [← hlink, hhigh q n hn]
      exact hn

/-- A call that changes no files, and may add a path at which a link could go. -/
theorem after_of_eq (h : Inv id fs₀ s) {a : Call} {t : Mounts} (hfs : t.fs = s.fs)
    (hsub : s.paths ⊆ t.paths)
    (hpaths : ∀ p ∈ t.paths, p ∈ s.paths ∨ ∃ name, IsChildName name ∧ p = runDir id ++ [name] ∧
      ∀ q, fs₀.locate p = some q → fs₀.lookup q = none) : Inv id fs₀ (s.after a t) := by
  have hmade : ∀ q, (s.after a t).made q = s.made q := by
    intro q
    simp only [Traced.after, hfs]
    split_ifs with hq
    · exact (h.made_eq_none hq).symm
    · rfl
  refine ⟨fun q hq ↦ ?_, fun q ad hq ↦ ?_, fun p hp ↦ ?_⟩
  · show t.fs.lookup q = _
    rw [hfs, h.base q (hmade q ▸ hq)]
  · obtain ⟨hname, hloc, hnone, hlink, hmem⟩ := h.made q ad (hmade q ▸ hq)
    exact ⟨hname, hloc, hnone, (congrArg (AList.lookup q) hfs).trans hlink, hsub hmem⟩
  · exact (hpaths p hp).elim (h.paths p) fun hnew ↦ hnew

/-- A link is made. -/
theorem after_insert (h : Inv id fs₀ s) {ad : AdvertiseRun} {ok : Bool}
    (hname : IsChildName ad.name) (hloc : fs₀.locate (linkPath id ad) = some q)
    (hnone : s.fs.lookup q = none) :
    Inv id fs₀ (s.after (.mountAd (some ad) ok)
      ⟨insert (linkPath id ad) s.paths, s.fs.insert q (.link true (sourceRun ad))⟩) := by
  have hfree : fs₀.lookup q = none := h.base q (h.made_eq_none hnone) ▸ hnone
  have hself : (s.after (.mountAd (some ad) ok)
      ⟨insert (linkPath id ad) s.paths, s.fs.insert q (.link true (sourceRun ad))⟩).made q =
      some ad := by
    simp [Traced.after, hnone, Call.mounted]
  have hother : ∀ r, r ≠ q → (s.after (.mountAd (some ad) ok)
      ⟨insert (linkPath id ad) s.paths, s.fs.insert q (.link true (sourceRun ad))⟩).made r =
      s.made r := by
    intro r hr
    simp only [Traced.after, AList.lookup_insert_ne hr]
    split_ifs with hn
    · exact (h.made_eq_none hn).symm
    · rfl
  refine ⟨fun r hr ↦ ?_, fun r ad' hr ↦ ?_, fun p hp ↦ ?_⟩
  · -- at the place of the new link something was made
    have hne : r ≠ q := by
      rintro rfl
      rw [hself] at hr
      cases hr
    rw [hother r hne] at hr
    exact (AList.lookup_insert_ne hne).trans (h.base r hr)
  · by_cases hne : r = q
    · subst hne
      rw [hself] at hr
      cases hr
      exact ⟨hname, hloc, hfree, AList.lookup_insert _, Finset.mem_insert_self ..⟩
    · rw [hother r hne] at hr
      obtain ⟨hname', hloc', hnone', hlink', hmem'⟩ := h.made r ad' hr
      exact ⟨hname', hloc', hnone', (AList.lookup_insert_ne hne).trans hlink',
        Finset.mem_insert_of_mem hmem'⟩
  · rcases Finset.mem_insert.1 hp with rfl | hp
    · refine ⟨ad.name, hname, linkPath_of_isChildName hname, fun r hr ↦ ?_⟩
      rw [hloc] at hr
      cases hr
      exact hfree
    · exact h.paths p hp

/-! ### The calls -/

/-- A path of the set is removed: the link that is there goes, and nothing else. -/
theorem remove_path (h : Inv id fs₀ s) (hlow : Sub fs₀ fs) (hhigh : Sub fs s.fs) {p : Path}
    (hp : p ∈ s.paths) :
    Sub fs₀ (fs.remove p) ∧ Sub (fs.remove p) fs ∧
      ∀ q, fs₀.locate p = some q → (fs.remove p).lookup q = none := by
  obtain ⟨name, -, rfl, hfree⟩ := h.paths p hp
  have hloc : ∀ q, fs.locate (runDir id ++ [name]) = some q ↔
      fs₀.locate (runDir id ++ [name]) = some q := fun _ ↦ h.locate_iff hlow hhigh
  refine ⟨?_, remove_sub fs _, fun q hq ↦ ?_⟩
  · rcases remove_cases fs (runDir id ++ [name]) with hsame | ⟨q, n, hq, -, herase⟩
    · rwa [hsame]
    · rw [herase]
      exact sub_erase hlow (hfree q ((hloc q).1 hq))
  · cases hn : fs.lookup q with
    | none => exact (remove_sub fs _).lookup_eq_none hn
    | some n =>
      obtain ⟨ad, had⟩ := h.made_of_lookup (hhigh q n hn) (hfree q hq)
      have hlink := (h.made q ad had).2.2.2.1
      rw [hhigh q n hn] at hlink
      rw [hlink] at hn
      rw [remove_of_link ((hloc q).2 hq) hn, AList.lookup_erase]

/-- **The loop of `clearMounts`**, from the files in the middle of it. -/
theorem remove_paths (h : Inv id fs₀ s) (ps : List Path) (hps : ∀ p ∈ ps, p ∈ s.paths) :
    ∀ fs, Sub fs₀ fs → Sub fs s.fs → Sub fs₀ (ps.foldl remove fs) ∧ Sub (ps.foldl remove fs) fs ∧
      ∀ p ∈ ps, ∀ q, fs₀.locate p = some q → (ps.foldl remove fs).lookup q = none := by
  induction ps with
  | nil => exact fun fs hlow _ ↦ ⟨hlow, sub_rfl, fun p hp ↦ absurd hp List.not_mem_nil⟩
  | cons p ps ih =>
    intro fs hlow hhigh
    obtain ⟨hlow₁, hhigh₁, hgone₁⟩ := h.remove_path hlow hhigh (hps p List.mem_cons_self)
    obtain ⟨hlow₂, hhigh₂, hgone₂⟩ := ih (fun r hr ↦ hps r (List.mem_cons_of_mem _ hr))
      (fs.remove p) hlow₁ (hhigh₁.trans hhigh)
    refine ⟨hlow₂, hhigh₂.trans hhigh₁, fun r hr q hq ↦ ?_⟩
    rcases List.mem_cons.1 hr with rfl | hr
    · exact hhigh₂.lookup_eq_none (hgone₁ q hq)
    · exact hgone₂ r hr q hq

/-- What is gone was not there in the beginning, so it was a link that was made. -/
theorem made_of_gone (h : Inv id fs₀ s) (hlow : Sub fs₀ fs) (hthere : s.fs.lookup q ≠ none)
    (hgone : fs.lookup q = none) :
    ∃ ad, s.made q = some ad ∧ s.fs.lookup q = some (.link true (sourceRun ad)) := by
  obtain ⟨n, hn⟩ := Option.ne_none_iff_exists'.1 hthere
  obtain ⟨ad, had⟩ := h.made_of_lookup hn (hlow.lookup_eq_none hgone)
  exact ⟨ad, had, (h.made q ad had).2.2.2.1⟩

/-- All that `clearMounts` removes was made, in whatever order. -/
theorem clearMounts (h : Inv id fs₀ s) (order : MapOrder Path) :
    RemovesOwn s (.clearMounts order)
        (s.after (.clearMounts order) (Links.clearMounts order s.toMounts)) ∧
      Inv id fs₀ (s.after (.clearMounts order) (Links.clearMounts order s.toMounts)) := by
  obtain ⟨hlow, hhigh, hgone⟩ := h.remove_paths (order.keys s.paths)
    (fun p ↦ (order.mem_keys s.paths p).1) s.fs h.sub sub_rfl
  have hall : ∀ q ad, s.made q = some ad →
      (Links.clearMounts order s.toMounts).fs.lookup q = none := by
    intro q ad had
    obtain ⟨-, hloc, -, -, hmem⟩ := h.made q ad had
    exact hgone _ ((order.mem_keys s.paths _).2 hmem) q hloc
  refine ⟨⟨fun q hthere hnone ↦ ?_, fun _ _ q ↦ ?_⟩, ?_⟩
  · obtain ⟨ad, had, hlink⟩ := h.made_of_gone hlow hthere hnone
    exact ⟨ad, had, hlink, trivial⟩
  · show (if _ then _ else _) = none
    split_ifs with hnone hnone'
    · rfl
    · rfl
    · cases had : s.made q with
      | none => rfl
      | some ad => exact absurd (hall q ad had) hnone
  · exact h.after_of_sub hlow hhigh subset_rfl fun q ad had hthere ↦ absurd (hall q ad had) hthere

/-- A careful `removeAd` removes the link that was made for it. -/
theorem removeAd (h : Inv id fs₀ s) {ad : Option AdvertiseRun}
    (hcare : Careful id s (.removeAd ad)) :
    RemovesOwn s (.removeAd ad) (s.after (.removeAd ad) (Links.removeAd id s.toMounts ad)) ∧
      Inv id fs₀ (s.after (.removeAd ad) (Links.removeAd id s.toMounts ad)) := by
  rcases ad with - | ad
  · refine ⟨⟨fun q hthere hnone ↦ absurd hnone hthere, fun _ heq ↦ by cases heq⟩, ?_⟩
    exact h.after_of_eq rfl subset_rfl fun p hp ↦ .inl hp
  · have hlow : Sub fs₀ (s.fs.remove (linkPath id ad)) := by
      rcases remove_cases s.fs (linkPath id ad) with hsame | ⟨q, n, hq, hn, herase⟩
      · rw [hsame]
        exact h.sub
      · rw [herase]
        exact sub_erase h.sub (h.made q ad (hcare q hq (by simp [hn]))).2.2.1
    refine ⟨⟨fun r hthere hnone ↦ ?_, fun _ heq ↦ by cases heq⟩, ?_⟩
    · obtain ⟨ad', had', hlink⟩ := h.made_of_gone hlow hthere hnone
      -- the entry that is gone is the one at the path
      rcases remove_cases s.fs (linkPath id ad) with hsame | ⟨q, n, hq, hn, herase⟩
      · exact absurd (hsame ▸ hnone) hthere
      · obtain rfl : r = q := by
          by_contra hne
          have hlookup : (s.fs.remove (linkPath id ad)).lookup r = none := hnone
          rw [herase, AList.lookup_erase_ne hne] at hlookup
          exact hthere hlookup
        exact ⟨ad', had', hlink, had'.symm.trans (hcare r hq hthere) ▸ rfl⟩
    · refine h.after_of_sub hlow (remove_sub s.fs _) (Finset.erase_subset ..)
        fun r ad' had' hthere ↦ ?_
      obtain ⟨hname, hloc, -, hlink, hmem⟩ := h.made r ad' had'
      refine Finset.mem_erase.2 ⟨fun heq ↦ hthere ?_, hmem⟩
      -- a link with the path that is removed is removed
      rw [linkPath_of_isChildName hname, ← h.locate_iff h.sub sub_rfl,
        ← linkPath_of_isChildName hname, heq] at hloc
      show (s.fs.remove (linkPath id ad)).lookup r = none
      rw [remove_of_link hloc hlink, AList.lookup_erase]

/-- What is in the way of a careful `mountAd` is a link that was made. -/
theorem mountAd (h : Inv id fs₀ s) {ad : Option AdvertiseRun} {ok : Bool}
    (hcare : Careful id s (.mountAd ad ok)) :
    RemovesOwn s (.mountAd ad ok) (s.after (.mountAd ad ok) (Links.mountAd id s.toMounts ok ad)) ∧
      Inv id fs₀ (s.after (.mountAd ad ok) (Links.mountAd id s.toMounts ok ad)) := by
  have hidle : ∀ {t : Mounts}, Sub s.fs t.fs →
      RemovesOwn s (.mountAd ad ok) (s.after (.mountAd ad ok) t) := fun hsub ↦
    ⟨fun q hthere hnone ↦ absurd (hsub.lookup_eq_none hnone) hthere, fun _ heq ↦ by cases heq⟩
  rcases ad with - | ad
  · exact ⟨hidle sub_rfl, h.after_of_eq rfl subset_rfl fun p hp ↦ .inl hp⟩
  · by_cases hown : ad.source = id
    · rw [Links.mountAd, if_pos hown]
      exact ⟨hidle sub_rfl, h.after_of_eq rfl subset_rfl fun p hp ↦ .inl hp⟩
    · obtain ⟨hname, hplace⟩ := hcare.resolve_left hown
      have hloc : ∀ q, s.fs.locate (linkPath id ad) = some q ↔
          fs₀.locate (linkPath id ad) = some q := by
        intro q
        rw [linkPath_of_isChildName hname]
        exact h.locate_iff h.sub sub_rfl
      rw [Links.mountAd, if_neg hown]
      rcases symlink_cases s.fs (sourceRun ad) (linkPath id ad) ok with hsame | ⟨q, hq, hn, hnew⟩
      · rw [hsame]
        refine ⟨hidle sub_rfl, h.after_of_eq rfl (Finset.subset_insert ..) fun p hp ↦ ?_⟩
        rcases Finset.mem_insert.1 hp with rfl | hp
        · refine .inr ⟨ad.name, hname, linkPath_of_isChildName hname, fun q hq ↦ ?_⟩
          cases hn : s.fs.lookup q with
          | none => exact h.sub.lookup_eq_none hn
          | some n =>
            obtain ⟨ad', had'⟩ := Option.ne_none_iff_exists'.1
              (hplace q ((hloc q).2 hq) (by simp [hn]))
            exact (h.made q ad' had').2.2.1
        · exact .inl hp
      · rw [hnew]
        refine ⟨hidle fun r n hr ↦ ?_, h.after_insert hname ((hloc q).1 hq) hn⟩
        have hne : r ≠ q := by
          rintro rfl
          rw [hn] at hr
          cases hr
        exact (AList.lookup_insert_ne hne).trans hr

end Inv

end Invariant

/-- **One careful call.** -/
theorem inv_step {id : String} {fs₀ : Entries} {s t : Traced} {a : Call} (h : Inv id fs₀ s)
    (hcare : Careful id s a) (hstep : step id s a = some t) : RemovesOwn s a t ∧ Inv id fs₀ t := by
  cases hstep
  cases a with
  | mountAd ad ok => exact h.mountAd hcare
  | removeAd ad => exact h.removeAd hcare
  | clearMounts order => exact h.clearMounts order

/-- **Links are removed only by their owner, in careful runs.** For all files that there are in the
beginning, every call of a run whose calls are careful removes only links that `mountAd` has made,
`removeAd` only that of its advertisement, and after `clearMounts` all of them are gone. -/
theorem keeps_of_runWhile (id : String) (fs : Entries) (calls : List Call) (t : Traced)
    (h : RunWhile (step id) (Careful id) (.start fs) calls t) :
    RunWhile (step id) (Keeps id) (.start fs) calls t :=
  h.guard_of_invariant (I := Inv id fs) (fun _ _ _ hs hcare hstep ↦ (inv_step hs hcare hstep).2)
    (fun _ _ hs hcare _ hstep ↦ (inv_step hs hcare hstep).1) inv_start

/-- The run directory of the container `b`, with a socket in it or without. -/
def runFiles (sock : Option Node) : Entries :=
  let dirs : Entries := ((∅ : Entries).insert ["run"] .dir).insert ["run", "b"] .dir
  match sock with
  | some n => dirs.insert ["run", "b", "sock"] n
  | none => dirs

/-- A socket of the container `a` is linked, and both ways of removing the link are gone through. -/
theorem keeps_of_one_ad :
    ∃ t, RunWhile (step "b") (Careful "b") (.start (runFiles none))
        [.mountAd (some ⟨"a", "sock"⟩) true, .removeAd (some ⟨"a", "sock"⟩), .clearMounts .some] t ∧
      RunWhile (step "b") (Keeps "b") (.start (runFiles none))
        [.mountAd (some ⟨"a", "sock"⟩) true, .removeAd (some ⟨"a", "sock"⟩), .clearMounts .some]
        t := by
  have hplain : IsChildName "sock" := ⟨by decide, by decide, by decide, by decide⟩
  have hmount : Careful "b" (.start (runFiles none)) (.mountAd (some ⟨"a", "sock"⟩) true) := by
    refine .inr ⟨hplain, fun q hq hthere ↦ absurd ?_ hthere⟩
    obtain rfl : ["run", "b", "sock"] = q := Option.some.inj hq
    rfl
  obtain ⟨t, hrun⟩ : ∃ t, RunWhile (step "b") (Careful "b") (.start (runFiles none))
      [.mountAd (some ⟨"a", "sock"⟩) true, .removeAd (some ⟨"a", "sock"⟩), .clearMounts .some]
      t := by
    refine ⟨_, .cons hmount rfl (.cons (fun q hq _ ↦ ?_) rfl (.cons trivial rfl (.nil _)))⟩
    obtain rfl : ["run", "b", "sock"] = q := Option.some.inj hq
    rfl
  exact ⟨t, hrun, keeps_of_runWhile "b" _ _ t hrun⟩

/-- **A container's socket is removed from its own run directory** when it is not advertised any
more. -/
theorem not_keeps_of_own_ad :
    ∃ t, Run (step "b") (.start (runFiles (some .file))) [.removeAd (some ⟨"b", "sock"⟩)] t ∧
      (runFiles (some .file)).lookup ["run", "b", "sock"] = some .file ∧
      t.fs.lookup ["run", "b", "sock"] = none ∧
      ¬ RunWhile (step "b") (Keeps "b") (.start (runFiles (some .file)))
        [.removeAd (some ⟨"b", "sock"⟩)] t := by
  refine ⟨_, .cons trivial rfl (.nil _), rfl, rfl, ?_⟩
  rintro (- | ⟨hkeeps, -, -⟩)
  obtain ⟨ad, had, -⟩ := (hkeeps _ rfl).removed ["run", "b", "sock"] (by decide) rfl
  cases had

end Guest.Links
