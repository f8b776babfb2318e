import Isle.Go.FileSystem
import Isle.Locator.Fetch

/-!
# Adding an app

`AddApp` of `guest/api.go`. An app that is in the user's `linux-apps` is checked and linked to from
the directory of the running apps. Any other is fetched by its selector: a directory for it is made
among the available apps, its configuration is written to the `app.hcl` there, and the link is made
to that directory.

The link comes last, and nothing is undone if it cannot be made. That is so for **a selector with a
slash**, as there is no directory for the link, and for **an app that is there already**, which then
has another configuration. `allOrNothing_iff` says for which requests and files a call does all of
that or nothing.
-/

namespace Guest.AddApp

open Filepath FileSystem

/-- Where the apps of the user are. -/
def linuxApps : Path := ["share", "home", "linux-apps"]

/-- Where the apps that were fetched are. -/
def available : Path := ["data", "apps", "available"]

/-- Where the links to the running apps are. -/
def running : Path := ["data", "apps", "running"]

/-- The configuration of an app. -/
def appHcl : String := "app.hcl"

/-- A request: the name of an app of the user, and where to get one otherwise. -/
structure AddAppReq where
  name : String
  selector : String
  deriving DecidableEq, Repr

/-- What is called when an error is returned. -/
inductive AddAppError (E : Type*)
  | invalidRequest
  | validateApp (e : E)
  | fetch (e : Locator.FetchError E)
  | mkdirAll
  | create
  | close
  | symlink
  deriving DecidableEq, Repr

/-- What `AddApp` meets with. -/
structure Env (E C : Type) where
  grants : Grants
  world : Locator.World E C
  validateApp : FileSystem → Path → Except E Unit
  /-- So many bytes at most are written by `f.Write`, whose error is not looked at. -/
  written : ℕ
  /-- `f.Close` has no error. -/
  closes : Bool

/-- A text in Go, as the bytes that it is. -/
def toBytes (s : String) : List UInt8 := s.toUTF8.data.toList

/-- The text that some bytes are. -/
def ofBytes (s : List UInt8) : String := (String.fromUTF8? ⟨s.toArray⟩).getD ""

theorem ofBytes_toBytes (s : String) : ofBytes (toBytes s) = s := by
  have hbytes : (⟨s.toUTF8.data.toList.toArray⟩ : ByteArray) = s.toUTF8 := by
    rw [Array.toArray_toList]
  rw [ofBytes, toBytes, hbytes, String.fromUTF8?,
    dif_pos (show s.toUTF8.IsValidUTF8 from s.isValidUTF8)]
  rfl

variable {E C : Type}

/-- What `AddApp` does with a configuration that it has fetched. -/
def install (env : Env E C) (fs : FileSystem) (name : String) (data : List UInt8) :
    Except (AddAppError E) Unit × FileSystem :=
  let availDir := join available name
  match fs.mkdirAll env.grants availDir with
  | (false, fs₁) => (.error .mkdirAll, fs₁)
  | (true, fs₁) =>
    match fs₁.create env.grants (join availDir appHcl) with
    | none => (.error .create, fs₁)
    | some (f, fs₂) =>
      let fs₃ := fs₂.write f (data.take env.written)
      if env.closes = false then (.error .close, fs₃)
      else
        match fs₃.symlink env.grants availDir (join running name) with
        | none => (.error .symlink, fs₃)
        | some fs₄ => (.ok (), fs₄)

/-- Whether a call has an error, and what there is afterwards. -/
def addApp (env : Env E C) (fs : FileSystem) (req : AddAppReq) :
    Except (AddAppError E) Unit × FileSystem :=
  if req.name = "" ∨ req.selector = "" then (.error .invalidRequest, fs)
  else
    let oldName := join linuxApps req.name
    match fs.entries.stat oldName with
    | some _ =>
      match env.validateApp fs oldName with
      | .error e => (.error (.validateApp e), fs)
      | .ok () =>
        match fs.symlink env.grants oldName (join running req.name) with
        | none => (.error .symlink, fs)
        | some fs₁ => (.ok (), fs₁)
    | none =>
      match Locator.fetch env.world (toBytes req.selector) with
      | .error e => (.error (.fetch e), fs)
      | .ok (cfg, data) => install env fs (ofBytes cfg.name) data

/-! ### What a call is to do -/

/-- There is a new entry by that name, which is a link. -/
def Linked (fs fs' : FileSystem) (p target : Path) : Prop :=
  ∃ q, fs'.entries.locate p = some q ∧ fs.entries.lookup q = none ∧
    fs'.entries.lookup q = some (.link true target)

/-- It is the name of an entry of the running apps, and not of one elsewhere. -/
def IsEntry (p : Path) : Prop := ∃ c, p = running ++ [c]

/-- A directory whose `app.hcl` has that in it. -/
structure Holds (fs : FileSystem) (dir : Path) (data : List UInt8) : Prop where
  directory_ne_none : fs.entries.directory dir ≠ none
  hcl : ∃ q, fs.entries.place (join dir appHcl) = some q ∧ fs.entries.lookup q = some .file ∧
    fs.data q = data

/-- **A call is all or nothing.** After an error all is as it was before. Otherwise there is a new
entry for the app among the running ones: for an app of the user it leads to that, which has been
checked, and for any other to a directory with the configuration that was fetched. -/
def AllOrNothing (env : Env E C) (fs : FileSystem) (req : AddAppReq) : Prop :=
  match addApp env fs req with
  | (.error _, fs') => Same fs fs'
  | (.ok (), fs') =>
    if fs.entries.stat (join linuxApps req.name) ≠ none then
      IsEntry (join running req.name) ∧
        Linked fs fs' (join running req.name) (join linuxApps req.name) ∧
          fs'.entries.stat (join linuxApps req.name) = fs.entries.stat (join linuxApps req.name) ∧
            env.validateApp fs (join linuxApps req.name) = .ok ()
    else
      ∃ cfg data, Locator.fetch env.world (toBytes req.selector) = .ok (cfg, data) ∧
        IsEntry (join running req.selector) ∧
          Linked fs fs' (join running req.selector) (join available req.selector) ∧
            Holds fs' (join available req.selector) data

/-! ### What is needed for that -/

/-- No call fails: the directory of the app can be made, if it is not there, its `app.hcl` can be
opened and closed, and with these there can be a link to it. -/
def Installable (env : Env E C) (fs : FileSystem) (name : String) : Prop :=
  env.closes = true ∧ ∃ fs₁ f fs₂, fs.mkdirAll env.grants (join available name) = (true, fs₁) ∧
    fs₁.create env.grants (join (join available name) appHcl) = some (f, fs₂) ∧
      Vacant env.grants fs₂ (join running name)

/-- There is nothing to change before the link is made: the directory of the app is there, with an
`app.hcl` that cannot be opened or has that text, or nothing on the way to it can be made. -/
def Untouched (env : Env E C) (fs : FileSystem) (name : String) (text : List UInt8) : Prop :=
  match fs.entries.directory (join available name) with
  | none => Stuck env.grants fs (join available name)
  | some _ => ∀ f, Opens env.grants fs (join (join available name) appHcl) f →
      fs.entries.lookup f = some .file ∧ fs.data f = text

/-- **What the files have to be like for a call to be all or nothing.** -/
def Untroubled (env : Env E C) (fs : FileSystem) (req : AddAppReq) : Prop :=
  req.name ≠ "" → req.selector ≠ "" →
    (fs.entries.stat (join linuxApps req.name) ≠ none →
      env.validateApp fs (join linuxApps req.name) = .ok () →
        Vacant env.grants fs (join running req.name) → IsEntry (join running req.name)) ∧
    (fs.entries.stat (join linuxApps req.name) = none →
      ∀ cfg data, Locator.fetch env.world (toBytes req.selector) = .ok (cfg, data) →
        (Installable env fs req.selector →
          IsEntry (join running req.selector) ∧ data.length ≤ env.written) ∧
        (¬ Installable env fs req.selector →
          Untouched env fs req.selector (data.take env.written)))

variable {env : Env E C} {fs fs' : FileSystem} {name : String} {data text : List UInt8}

theorem Holds.unique {dir : Path} (h : Holds fs dir data) (h' : Holds fs dir text) :
    data = text := by
  obtain ⟨q, hq, -, rfl⟩ := h.hcl
  obtain ⟨q', hq', -, rfl⟩ := h'.hcl
  rw [Option.some.inj (hq.symm.trans hq')]

theorem isPlain_of_mem_availDir (name : String) : ∀ c ∈ join available name, Entries.IsPlain c := by
  refine isPlain_of_mem_join (fun c hc ↦ ?_) name
  simp only [available, List.mem_cons, List.not_mem_nil, or_false] at hc
  rcases hc with rfl | rfl | rfl <;> exact ⟨by decide, by decide, by decide⟩

theorem linked_of_symlink {target p : Path} (hsub : Entries.Sub fs.entries fs'.entries)
    {fs₁ : FileSystem} (h : fs'.symlink env.grants target p = some fs₁) :
    Linked fs fs₁ p target ∧ Grows fs' fs₁ := by
  have hnew : fs'.newEntry p (.link true target) = some fs₁ := by
    unfold symlink at h
    split_ifs at h
    exact h
  have hgrows := grows_of_newEntry hnew
  obtain ⟨q, hq, hfree, hentries, -⟩ := newEntry_eq_some hnew
  exact ⟨⟨q, Entries.locate_mono hgrows.sub hq, hsub.lookup_eq_none hfree,
    hentries ▸ AList.lookup_insert _⟩, hgrows⟩

/-! ### Installing -/

theorem vacant_write {g : Grants} {f p : Path} : Vacant g (fs.write f text) p ↔ Vacant g fs p :=
  Iff.rfl

/-- If no call fails, the link is there and the directory that it leads to. -/
theorem install_of_installable (h : Installable env fs name) (data : List UInt8) :
    ∃ fs', install env fs name data = (.ok (), fs') ∧
      Linked fs fs' (join running name) (join available name) ∧
        Holds fs' (join available name) (data.take env.written) := by
  obtain ⟨hcloses, fs₁, f, fs₂, hmkdir, hcreate, hvacant⟩ := h
  have hcreated := created_of_create hcreate
  have hgrows := grows_of_mkdirAll hmkdir
  obtain ⟨d, hd⟩ := Option.ne_none_iff_exists'.1
    (directory_mkdirAll (isPlain_of_mem_availDir name) hmkdir)
  cases hlink : (fs₂.write f (data.take env.written)).symlink env.grants (join available name)
    (join running name) with
  | none => exact absurd (vacant_write.2 hvacant) (symlink_eq_none_iff.1 hlink)
  | some fs₄ =>
    have hsub : Entries.Sub fs.entries (fs₂.write f (data.take env.written)).entries :=
      hgrows.sub.trans hcreated.sub
    obtain ⟨hlinked, hgrows₄⟩ := linked_of_symlink hsub hlink
    have hsub₄ : Entries.Sub fs₂.entries fs₄.entries := hgrows₄.sub
    have hfile := hsub₄ f _ hcreated.isFile
    refine ⟨fs₄, ?_, hlinked, ?_, f, ?_, hfile, ?_⟩
    · simp [install, hmkdir, hcreate, hcloses, hlink]
    · rw [Entries.directory_mono (hcreated.sub.trans hsub₄) hd]
      exact nofun
    · exact Entries.place_mono hsub₄ hcreated.place_eq (.inr hfile)
    · rw [hgrows₄.data_eq, hcreated.data_write, Function.update_self]

/-- What an error leaves behind if the file was opened. -/
theorem install_of_create (data : List UInt8) {fs₁ fs₂ : FileSystem} {f : Path}
    (h : ¬ Installable env fs name)
    (hmkdir : fs.mkdirAll env.grants (join available name) = (true, fs₁))
    (hcreate : fs₁.create env.grants (join (join available name) appHcl) = some (f, fs₂)) :
    ∃ e, install env fs name data = (.error e, fs₂.write f (data.take env.written)) := by
  by_cases hcloses : env.closes = false
  · exact ⟨.close, by simp [install, hmkdir, hcreate, hcloses]⟩
  · have hlink : (fs₂.write f (data.take env.written)).symlink env.grants (join available name)
        (join running name) = none := by
      refine symlink_eq_none_iff.2 fun hvacant ↦ h ⟨by simpa using hcloses, fs₁, f, fs₂, hmkdir,
        hcreate, vacant_write.1 hvacant⟩
    exact ⟨.symlink, by simp [install, hmkdir, hcreate, hcloses, hlink]⟩

/-- If the directory is there, only the file can change. -/
theorem install_of_directory (h : ¬ Installable env fs name) (data : List UInt8)
    (hdir : fs.entries.directory (join available name) ≠ none) :
    ∃ e fs', install env fs name data = (.error e, fs') ∧
      (Same fs fs' ↔ ∀ f, Opens env.grants fs (join (join available name) appHcl) f →
        fs.entries.lookup f = some .file ∧ fs.data f = data.take env.written) := by
  have hmkdir : fs.mkdirAll env.grants (join available name) = (true, fs) :=
    mkdirAll_of_directory hdir
  cases hcreate : fs.create env.grants (join (join available name) appHcl) with
  | none =>
    refine ⟨.create, fs, by simp [install, hmkdir, hcreate], iff_of_true same_rfl fun f hf ↦ ?_⟩
    exact absurd hf (create_eq_none_iff.1 hcreate f)
  | some opened =>
    obtain ⟨f, fs₂⟩ := opened
    have hcreated := created_of_create hcreate
    obtain ⟨e, he⟩ := install_of_create data h hmkdir hcreate
    refine ⟨e, _, he, ?_⟩
    rw [hcreated.same_write_iff]
    refine ⟨fun hsame f' hf' ↦ ?_, fun hall ↦ hall f hcreated.opens⟩
    obtain rfl := Option.some.inj (hcreated.opens.place_eq.symm.trans hf'.place_eq)
    exact hsame

/-- If the directory is missing, a part of it that has been made stays. -/
theorem install_of_missing (h : ¬ Installable env fs name) (data : List UInt8)
    (hdir : fs.entries.directory (join available name) = none) :
    ∃ e fs', install env fs name data = (.error e, fs') ∧
      (Same fs fs' ↔ Stuck env.grants fs (join available name)) := by
  have hclean := isPlain_of_mem_availDir name
  have hsame : Same fs (fs.mkdirAll env.grants (join available name)).2 ↔ _ :=
    same_mkdirAll_iff hclean
  rw [hdir, or_iff_right (not_not_intro rfl)] at hsame
  rw [← hsame]
  rcases hmkdir : fs.mkdirAll env.grants (join available name) with ⟨- | -, fs₁⟩
  · exact ⟨.mkdirAll, fs₁, by simp [install, hmkdir], Iff.rfl⟩
  · have hgrows := grows_of_mkdirAll hmkdir
    have hchanged := not_same_of_mkdirAll hclean hdir hmkdir
    cases hcreate : fs₁.create env.grants (join (join available name) appHcl) with
    | none => exact ⟨.create, fs₁, by simp [install, hmkdir, hcreate], Iff.rfl⟩
    | some opened =>
      obtain ⟨f, fs₂⟩ := opened
      obtain ⟨e, he⟩ := install_of_create data h hmkdir hcreate
      have hsub : Entries.Sub fs₁.entries (fs₂.write f (data.take env.written)).entries :=
        (created_of_create hcreate).sub
      exact ⟨e, _, he,
        iff_of_false (fun hsame ↦ hchanged (hgrows.same_of_same hsub hsame)) hchanged⟩

/-- **If a call fails, all is as before exactly if there was nothing to change.** -/
theorem install_of_not_installable (h : ¬ Installable env fs name) (data : List UInt8) :
    ∃ e fs', install env fs name data = (.error e, fs') ∧
      (Same fs fs' ↔ Untouched env fs name (data.take env.written)) := by
  rw [Untouched]
  split
  · next hdir => exact install_of_missing h data hdir
  · next hdir => exact install_of_directory h data (by rw [hdir]; exact nofun)

/-! ### The whole call -/

variable {req : AddAppReq}

theorem allOrNothing_of_error {e : AddAppError E} (h : addApp env fs req = (.error e, fs')) :
    AllOrNothing env fs req ↔ Same fs fs' := by
  rw [AllOrNothing, h]

theorem not_allOrNothing_of_error {e : AddAppError E} (h : (addApp env fs req).1 = .error e)
    (hchanged : ¬ Same fs (addApp env fs req).2) : ¬ AllOrNothing env fs req := by
  have hadd : addApp env fs req = (.error e, (addApp env fs req).2) := Prod.ext h rfl
  rwa [allOrNothing_of_error hadd]

/-- An app of the user is linked to, or nothing is done. -/
theorem allOrNothing_of_local (hname : req.name ≠ "") (hsel : req.selector ≠ "")
    (hstat : fs.entries.stat (join linuxApps req.name) ≠ none) :
    AllOrNothing env fs req ↔ (env.validateApp fs (join linuxApps req.name) = .ok () →
      Vacant env.grants fs (join running req.name) → IsEntry (join running req.name)) := by
  obtain ⟨n, hn⟩ := Option.ne_none_iff_exists'.1 hstat
  cases hvalid : env.validateApp fs (join linuxApps req.name) with
  | error e =>
    have hadd : addApp env fs req = (.error (.validateApp e), fs) := by
      simp [addApp, hname, hsel, hn, hvalid]
    exact iff_of_true ((allOrNothing_of_error hadd).2 same_rfl) nofun
  | ok =>
    cases hlink : fs.symlink env.grants (join linuxApps req.name) (join running req.name) with
    | none =>
      have hadd : addApp env fs req = (.error .symlink, fs) := by
        simp [addApp, hname, hsel, hn, hvalid, hlink]
      refine iff_of_true ((allOrNothing_of_error hadd).2 same_rfl) fun _ hvacant ↦ ?_
      exact absurd hvacant (symlink_eq_none_iff.1 hlink)
    | some fs₁ =>
      have hadd : addApp env fs req = (.ok (), fs₁) := by
        simp [addApp, hname, hsel, hn, hvalid, hlink]
      have hvacant : Vacant env.grants fs (join running req.name) := by
        by_contra hvacant
        rw [symlink_eq_none_iff.2 hvacant] at hlink
        cases hlink
      obtain ⟨hlinked, hgrows⟩ := linked_of_symlink Entries.sub_rfl hlink
      simp only [AllOrNothing, hadd, if_pos hstat]
      refine ⟨fun h _ _ ↦ h.1, fun h ↦ ⟨h trivial hvacant, hlinked, ?_, hvalid⟩⟩
      rw [hn]
      exact Entries.stat_mono hgrows.sub fs.closed hn

/-- A configuration that was fetched is installed, or nothing is done. -/
theorem allOrNothing_of_fetch (hname : req.name ≠ "") (hsel : req.selector ≠ "")
    (hstat : fs.entries.stat (join linuxApps req.name) = none) {cfg : Locator.Config C}
    (hfetch : Locator.fetch env.world (toBytes req.selector) = .ok (cfg, data)) :
    AllOrNothing env fs req ↔
      (Installable env fs req.selector →
        IsEntry (join running req.selector) ∧ data.length ≤ env.written) ∧
      (¬ Installable env fs req.selector →
        Untouched env fs req.selector (data.take env.written)) := by
  have hcfg : ofBytes cfg.name = req.selector := by
    rw [(Locator.exists_of_fetch hfetch).1, ofBytes_toBytes]
  have hadd : addApp env fs req = install env fs req.selector data := by
    simp [addApp, hname, hsel, hstat, hfetch, hcfg]
  by_cases h : Installable env fs req.selector
  · obtain ⟨fs', hinstall, hlinked, hholds⟩ := install_of_installable h data
    rw [imp_iff_right h, and_iff_left (absurd h)]
    simp only [AllOrNothing, hadd, hinstall, hstat, ne_eq, not_true_eq_false, if_false, hfetch,
      Except.ok.injEq, Prod.mk.injEq]
    constructor
    · rintro ⟨_, _, ⟨-, rfl⟩, hentry, -, hdata⟩
      exact ⟨hentry, (List.take_eq_self_iff data).1 (hholds.unique hdata)⟩
    · rintro ⟨hentry, hlen⟩
      rw [List.take_of_length_le hlen] at hholds
      exact ⟨cfg, data, ⟨rfl, rfl⟩, hentry, hlinked, hholds⟩
  · obtain ⟨e, fs', hinstall, hsame⟩ := install_of_not_installable h data
    rw [allOrNothing_of_error (hadd.trans hinstall), hsame, imp_iff_right h,
      and_iff_right fun h' ↦ absurd h' h]

/-- **A call is all or nothing exactly if it meets with nothing that troubles it.** -/
theorem allOrNothing_iff (env : Env E C) (fs : FileSystem) (req : AddAppReq) :
    AllOrNothing env fs req ↔ Untroubled env fs req := by
  unfold Untroubled
  by_cases hreq : req.name = "" ∨ req.selector = ""
  · have hadd : addApp env fs req = (.error .invalidRequest, fs) := if_pos hreq
    refine iff_of_true ((allOrNothing_of_error hadd).2 same_rfl) fun hname hsel ↦ ?_
    exact absurd hreq (not_or.2 ⟨hname, hsel⟩)
  obtain ⟨hname, hsel⟩ := not_or.1 hreq
  rw [imp_iff_right hname, imp_iff_right hsel]
  by_cases hstat : fs.entries.stat (join linuxApps req.name) = none
  · rw [and_iff_right (absurd hstat), imp_iff_right hstat]
    cases hfetch : Locator.fetch env.world (toBytes req.selector) with
    | error e =>
      have hadd : addApp env fs req = (.error (.fetch e), fs) := by
        simp [addApp, hname, hsel, hstat, hfetch]
      exact iff_of_true ((allOrNothing_of_error hadd).2 same_rfl) nofun
    | ok fetched =>
      obtain ⟨cfg, data⟩ := fetched
      rw [allOrNothing_of_fetch hname hsel hstat hfetch]
      refine ⟨?_, fun h ↦ h cfg data rfl⟩
      rintro h _ _ ⟨⟩
      exact h
  · rw [allOrNothing_of_local hname hsel hstat, imp_iff_right hstat,
      and_iff_left fun h ↦ absurd h hstat]

/-! ### Calls that fail at the link -/

/-- The directories, with no apps in them. -/
def noApps : FileSystem where
  entries := ((((∅ : Entries).insert ["data"] .dir).insert ["data", "apps"] .dir).insert available
    .dir).insert running .dir
  data _ := []
  closed := Entries.closed_of_forall_mem (by decide)

/-- The app `docker` is there, with an empty configuration. -/
def dockerApp : FileSystem where
  entries := (((noApps.entries.insert (available ++ ["docker"]) .dir).insert
    (available ++ ["docker", appHcl]) .file).insert (running ++ ["docker"])
      (.link true (available ++ ["docker"])))
  data _ := []
  closed := Entries.closed_of_forall_mem (by decide)

/-- No call fails but for the files, and there is a configuration for `docker`. -/
noncomputable def dockerEnv : Env Unit Unit where
  grants := ⟨fun _ ↦ true, fun _ ↦ true, fun _ ↦ true⟩
  world := Locator.dockerFile
  validateApp _ _ := .ok ()
  written := 4096
  closes := true

theorem addApp_dockerEnv {fs : FileSystem} {sel : String}
    (hstat : fs.entries.stat (join linuxApps "docker") = none) (hsel : sel ≠ "")
    (h : (Locator.resolve (toBytes sel)).name = Text.ascii "docker") :
    addApp dockerEnv fs ⟨"docker", sel⟩ = install dockerEnv fs sel Locator.dockerHcl := by
  have hfetch : Locator.fetch dockerEnv.world (toBytes sel) =
      .ok (⟨toBytes sel, ()⟩, Locator.dockerHcl) := Locator.fetch_dockerFile h
  simp [addApp, hsel, hstat, hfetch, ofBytes_toBytes]

/-- The selector has a slash, and no link can be made: the configuration is there all the same. And
an app that is there cannot be added again, but it has another configuration then. -/
theorem not_allOrNothing_docker :
    ((addApp dockerEnv noApps ⟨"docker", "isle.dev/docker"⟩).1 = .error .symlink ∧
      noApps.entries.lookup (available ++ ["isle.dev", "docker", appHcl]) = none ∧
      (addApp dockerEnv noApps ⟨"docker", "isle.dev/docker"⟩).2.entries.lookup
        (available ++ ["isle.dev", "docker", appHcl]) = some .file ∧
      ¬ AllOrNothing dockerEnv noApps ⟨"docker", "isle.dev/docker"⟩) ∧
    ((addApp dockerEnv dockerApp ⟨"docker", "docker"⟩).1 = .error .symlink ∧
      dockerApp.data (available ++ ["docker", appHcl]) = [] ∧
      (addApp dockerEnv dockerApp ⟨"docker", "docker"⟩).2.data (available ++ ["docker", appHcl]) =
        Locator.dockerHcl ∧
      ¬ AllOrNothing dockerEnv dockerApp ⟨"docker", "docker"⟩) := by
  have hslash : addApp dockerEnv noApps ⟨"docker", "isle.dev/docker"⟩ =
      install dockerEnv noApps "isle.dev/docker" Locator.dockerHcl :=
    addApp_dockerEnv (by decide +kernel) (by decide) (by decide +kernel)
  have hagain : addApp dockerEnv dockerApp ⟨"docker", "docker"⟩ =
      install dockerEnv dockerApp "docker" Locator.dockerHcl :=
    addApp_dockerEnv (by decide +kernel) (by decide) (by decide +kernel)
  have hmade : (install dockerEnv noApps "isle.dev/docker" Locator.dockerHcl).1 =
        .error .symlink ∧
      noApps.entries.lookup (available ++ ["isle.dev", "docker", appHcl]) = none ∧
      (install dockerEnv noApps "isle.dev/docker" Locator.dockerHcl).2.entries.lookup
        (available ++ ["isle.dev", "docker", appHcl]) = some .file := by decide +kernel
  have hwritten : (install dockerEnv dockerApp "docker" Locator.dockerHcl).1 = .error .symlink ∧
      dockerApp.entries.lookup (available ++ ["docker", appHcl]) = some .file ∧
      (install dockerEnv dockerApp "docker" Locator.dockerHcl).2.data
        (available ++ ["docker", appHcl]) = Locator.dockerHcl := by decide +kernel
  rw [← hslash] at hmade
  rw [← hagain] at hwritten
  refine ⟨⟨hmade.1, hmade.2.1, hmade.2.2, not_allOrNothing_of_error hmade.1 fun hsame ↦ ?_⟩,
    hwritten.1, rfl, hwritten.2.2, not_allOrNothing_of_error hwritten.1 fun hsame ↦ ?_⟩
  · have hnone := (hsame.lookup_eq _).trans hmade.2.1
    rw [hmade.2.2] at hnone
    cases hnone
  · have hdata := hsame.data_eq _ hwritten.2.1
    rw [hwritten.2.2] at hdata
    exact absurd (show Locator.dockerHcl = [] from hdata) (by decide)

end Guest.AddApp
