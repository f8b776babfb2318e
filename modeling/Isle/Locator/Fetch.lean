import Isle.Locator.Resolve

/-!
# Fetching a configuration

`Fetch` and `FetchConfig` of `pkg/locator/fetch.go`. A location on GitHub is an owner, a repository
and a path; what is there is a file, or a directory with an `app.hcl` in it.

The three are split from a text that may have fewer parts, and **indexed without a look at how many
there are** (`not_panicked_iff`). And **an error of the first call for the contents is returned as
an empty text without one** (`fetch_obtained_iff`).
-/

open Text

namespace Locator

/-- A file of a repository, with what `GetContent` makes of it. -/
structure File (E : Type*) where
  getContent : Except E (List UInt8)

/-- An entry of a directory of a repository. -/
structure Entry where
  name : Str
  path : Str
  deriving DecidableEq, Repr

/-- What `Fetch` meets with. -/
structure World (E C : Type) where
  /-- The document at a URL, if there is one with status 200 that can be decoded. -/
  get : Str → Option WellKnown
  re : Regexp
  order : MapOrder Str
  /-- `GetContents` of the first and of the second call, for an owner, a repository and a path: a
  file, or none and the entries of a directory. -/
  getContents : Fin 2 → Str → Str → Str → Except E (Option (File E) × List Entry)
  /-- `hclsimple.Decode` -/
  decode : List UInt8 → Except E C

/-- `shardconfig.Config`: the name, and what is decoded. -/
structure Config (C : Type*) where
  name : Str
  body : C

variable {E C : Type} (w : World E C)

/-- Where a registry says which apps it has. -/
def wellKnownURL (registry : Str) : Str :=
  (if registry = ascii "localhost" then ascii "http" else ascii "https") ++ ascii "://" ++
    registry ++ ascii "/.well-known/isle.json"

/-- Where an app is, as its registry says. -/
def resolveLocation (loc : Location) : Except (FetchError E) ResolvedLocation :=
  match w.get (wellKnownURL loc.registry) with
  | none => .error (.unknownRegistryType loc.registry)
  | some wk =>
    match wk.makeCanonical with
    | .error e => .error e
    | .ok wk => resolveFromWellKnown w.re w.order loc wk

/-- What a file of a repository has in it. -/
def contentOf (file : File E) : Except (FetchError E) (List UInt8) :=
  file.getContent.mapError .contents

/-- The configuration of an app from where it is. -/
def fetchConfig (loc : ResolvedLocation) : Except (FetchError E) (List UInt8) :=
  if loc.type = ascii "github" then
    match splitN slash 3 loc.location with
    | [owner, repo, path] =>
      match w.getContents 0 owner repo path with
      | .error _ => .ok []
      | .ok (some file, _) => contentOf file
      | .ok (none, dir) =>
        match dir.find? fun ent ↦ ent.name = ascii "app.hcl" with
        | none => .error (.unable loc.type loc.location)
        | some ent =>
          match w.getContents 1 owner repo ent.path with
          | .error e => .error (.contents e)
          | .ok (none, _) => .error .notAFile
          | .ok (some file, _) => contentOf file
    | _ => .error .panicked
  else .error (.unable loc.type loc.location)

/-- `shardconfig.Decode` -/
def decode (name : Str) (data : List UInt8) : Except (FetchError E) (Config C) :=
  ((w.decode data).mapError .decode).map fun body ↦ ⟨name, body⟩

/-- The configuration of the app that a selector names, and its text. -/
def fetch (sel : Str) : Except (FetchError E) (Config C × List UInt8) := do
  let rl ← resolveLocation w (resolve sel)
  let cfg ← fetchConfig w rl
  let obj ← decode w sel cfg
  return (obj, cfg)

/-! ### Panics -/

theorem contentOf_ne_panicked (file : File E) : contentOf file ≠ .error .panicked := by
  rw [contentOf]
  cases file.getContent <;> simp [Except.mapError]

/-- Of three parts, one is missing with fewer than two slashes. -/
theorem fetchConfig_eq_panicked_iff (loc : ResolvedLocation) :
    fetchConfig w loc = .error .panicked ↔
      loc.type = ascii "github" ∧ loc.location.count slash < 2 := by
  have hlen : (splitN slash 3 loc.location).length = min (loc.location.count slash) 2 + 1 :=
    length_splitN 2 loc.location
  rw [fetchConfig]
  by_cases htype : loc.type = ascii "github"
  · rw [if_pos htype, and_iff_right htype]
    split
    · next owner repo path hparts =>
      rw [hparts] at hlen
      simp only [List.length_cons, List.length_nil] at hlen
      refine iff_of_false ?_ (by omega)
      split
      · exact nofun
      · exact contentOf_ne_panicked _
      · split
        · exact nofun
        · split
          · exact nofun
          · exact nofun
          · exact contentOf_ne_panicked _
    · next hparts =>
      refine iff_of_true rfl ?_
      by_contra hcount
      match hsplit : splitN slash 3 loc.location, (show _ = 3 from hlen.trans (by omega)) with
      | [owner, repo, path], _ => exact hparts owner repo path hsplit
  · rw [if_neg htype]
    exact iff_of_false nofun fun h ↦ htype h.1

theorem fetch_eq_panicked_iff (sel : Str) :
    fetch w sel = .error .panicked ↔
      resolveLocation w (resolve sel) = .error .panicked ∨
        ∃ rl, resolveLocation w (resolve sel) = .ok rl ∧ fetchConfig w rl = .error .panicked := by
  rw [fetch]
  cases hrl : resolveLocation w (resolve sel) with
  | error e => simp [bind, Except.bind]
  | ok rl =>
    cases hcfg : fetchConfig w rl with
    | error e => simp [bind, Except.bind, hcfg]
    | ok cfg =>
      cases hobj : w.decode cfg <;>
        simp [bind, Except.bind, hcfg, decode, hobj, Except.mapError, Except.map, pure, Except.pure]

/-- The location of an app, as it is put into the two fields. -/
def canonicalLocation (app : WellKnownApp) : ResolvedLocation :=
  ⟨app.makeCanonical.type, app.makeCanonical.target⟩

variable {w} {loc : Location} {wk : WellKnown}

theorem resolveLocation_of_nil (hget : w.get (wellKnownURL loc.registry) = some wk)
    (h : ¬ NoNil wk) : resolveLocation w loc = .error .panicked := by
  simp only [resolveLocation, hget, WellKnown.makeCanonical, if_neg h]

theorem resolveLocation_of_noNil (hget : w.get (wellKnownURL loc.registry) = some wk)
    (h : NoNil wk) :
    resolveLocation w loc = resolveFromWellKnown w.re w.order loc wk.canonical := by
  simp only [resolveLocation, hget, WellKnown.makeCanonical, if_pos h]

theorem locationOf_canonical {s : Str} {app : WellKnownApp} (happ : wk.app s = some app) :
    (locationOf (wk.canonical.app s) : Except (FetchError E) _) = .ok (canonicalLocation app) := by
  simp only [WellKnown.canonical, happ]
  rfl

/-- **A location of a document without nil pointers** is that of an app with a selector that
matches, if there is one. -/
theorem resolveLocation_cases (hget : w.get (wellKnownURL loc.registry) = some wk) (h : NoNil wk) :
    (∃ s ∈ wk.selectors, matchSelector w.re s loc.name = true ∧
      ∃ app, wk.app s = some app ∧ resolveLocation w loc = .ok (canonicalLocation app)) ∨
    ((∀ s ∈ wk.selectors, matchSelector w.re s loc.name = false) ∧
      resolveLocation w loc = detectLocation loc) := by
  rw [resolveLocation_of_noNil hget h]
  rcases resolveFromWellKnown_cases (E := E) w.re loc wk.canonical w.order with
    ⟨s, hs, hm, heq⟩ | ⟨hnone, heq⟩
  · obtain ⟨app, happ⟩ := Option.isSome_iff_exists.1 (h s hs)
    exact .inl ⟨s, hs, hm, app, happ, heq.trans (locationOf_canonical happ)⟩
  · exact .inr ⟨hnone, heq⟩

/-- Each such app is found in some order. -/
theorem resolveLocation_startingWith (hget : w.get (wellKnownURL loc.registry) = some wk)
    (h : NoNil wk) {s : Str} (hs : s ∈ wk.selectors) {app : WellKnownApp}
    (happ : wk.app s = some app) (hm : matchSelector w.re s loc.name = true) :
    resolveLocation { w with order := .startingWith s } loc = .ok (canonicalLocation app) := by
  refine (resolveLocation_of_noNil (w := { w with order := .startingWith s }) hget h).trans ?_
  have hs' : s ∈ wk.canonical.selectors := hs
  exact (resolveFromWellKnown_startingWith hs' hm).trans (locationOf_canonical happ)

/-- **What a document and a selector have to be like for `Fetch` not to panic.** No app is missing,
and what is found on GitHub has two slashes, be it that of an app or the name itself. -/
def Indexable (w : World E C) (sel : Str) : Prop :=
  ∀ wk, w.get (wellKnownURL (resolve sel).registry) = some wk →
    NoNil wk ∧
    (∀ s ∈ wk.selectors, matchSelector w.re s (resolve sel).name = true →
      ∀ app, wk.app s = some app → (canonicalLocation app).type = ascii "github" →
        2 ≤ (canonicalLocation app).location.count slash) ∧
    ((∀ s ∈ wk.selectors, matchSelector w.re s (resolve sel).name = false) →
      (resolve sel).registry = ascii "github.com" → 2 ≤ (resolve sel).name.count slash)

variable {rl : ResolvedLocation} {sel : Str} {text : List UInt8}

theorem detectLocation_eq_ok_iff :
    (detectLocation loc : Except (FetchError E) _) = .ok rl ↔
      loc.registry = ascii "github.com" ∧ rl = ⟨ascii "github", loc.name⟩ := by
  rw [detectLocation]
  split_ifs with h <;> simp [h, eq_comm]

/-- And it must be so, for every order of the map. -/
theorem indexable_of_not_panicked {w : World E C}
    (h : ∀ order, fetch { w with order := order } sel ≠ .error .panicked) : Indexable w sel := by
  intro wk hget
  have hnil : NoNil wk := by
    by_contra hnil
    exact h w.order ((fetch_eq_panicked_iff w sel).2 (.inl (resolveLocation_of_nil hget hnil)))
  refine ⟨hnil, fun s hs hm app happ htype ↦ ?_, fun hnone hreg ↦ ?_⟩
  · by_contra hcount
    refine h (.startingWith s) ((fetch_eq_panicked_iff _ sel).2 (.inr ⟨canonicalLocation app,
      resolveLocation_startingWith hget hnil hs happ hm, ?_⟩))
    exact (fetchConfig_eq_panicked_iff _ _).2 ⟨htype, by omega⟩
  · by_contra hcount
    rcases resolveLocation_cases hget hnil with ⟨s, hs, hm, -⟩ | ⟨-, heq⟩
    · simp [hnone s hs] at hm
    · refine h w.order ((fetch_eq_panicked_iff w sel).2 (.inr ⟨⟨ascii "github", _⟩,
        heq.trans (detectLocation_eq_ok_iff.2 ⟨hreg, rfl⟩), ?_⟩))
      exact (fetchConfig_eq_panicked_iff w _).2 ⟨rfl, not_le.1 hcount⟩

/-- No index is out of range for such a selector. -/
theorem Indexable.not_panicked {w : World E C} (h : Indexable w sel) :
    fetch w sel ≠ .error .panicked := by
  intro hpanic
  cases hget : w.get (wellKnownURL (resolve sel).registry) with
  | none =>
    have hrl : resolveLocation w (resolve sel) =
        .error (.unknownRegistryType (resolve sel).registry) := by
      simp only [resolveLocation, hget]
    simp [fetch_eq_panicked_iff, hrl] at hpanic
  | some wk =>
    obtain ⟨hnil, happs, hname⟩ := h wk hget
    have hcases := resolveLocation_cases hget hnil
    rcases (fetch_eq_panicked_iff _ sel).1 hpanic with hrl | ⟨rl, hrl, hcfg⟩
    · rw [hrl] at hcases
      rcases hcases with ⟨s, -, -, app, -, heq⟩ | ⟨-, heq⟩
      · cases heq
      · rw [detectLocation] at heq
        split_ifs at heq
        cases heq
    · obtain ⟨htype, hcount⟩ := (fetchConfig_eq_panicked_iff _ rl).1 hcfg
      rw [hrl] at hcases
      rcases hcases with ⟨s, hs, hm, app, happ, heq⟩ | ⟨hnone, heq⟩
      · obtain rfl := Except.ok.inj heq
        exact absurd (happs s hs hm app happ htype) (not_le.2 hcount)
      · obtain ⟨hreg, rfl⟩ := detectLocation_eq_ok_iff.1 heq.symm
        exact absurd (hname hnone hreg) (not_le.2 hcount)

/-- **`Fetch` does not panic, in whatever order the map is walked, exactly for these.** -/
theorem not_panicked_iff (w : World E C) (sel : Str) :
    (∀ order, fetch { w with order := order } sel ≠ .error .panicked) ↔ Indexable w sel := by
  refine ⟨indexable_of_not_panicked, fun h order ↦ ?_⟩
  -- the order is not part of the condition
  have hindexable : Indexable { w with order := order } sel := h
  exact hindexable.not_panicked

/-- A registry with an app for `docker`, at a target on GitHub where all calls return the same. -/
noncomputable def oneApp (target : Str) (contents : Except Unit (Option (File Unit) × List Entry)) :
    World Unit Unit where
  get _ := some ⟨{ascii "docker"}, fun _ ↦ some ⟨[], [], target, []⟩⟩
  re _ := none
  order := .startingWith (ascii "docker")
  getContents _ _ _ _ := contents
  decode _ := .ok ()

theorem resolveLocation_oneApp {target : Str} (h : target ≠ [])
    (contents : Except Unit (Option (File Unit) × List Entry)) (hname : loc.name = ascii "docker") :
    resolveLocation (oneApp target contents) loc = .ok ⟨ascii "github", target⟩ := by
  refine (resolveLocation_startingWith (w := oneApp target contents) (s := ascii "docker") rfl
    (fun _ _ ↦ rfl) (Finset.mem_singleton_self _) rfl (if_pos (.inr hname.symm))).trans ?_
  simp [canonicalLocation, WellKnownApp.makeCanonical, h]

/-- The target has no path in it. -/
theorem panicked_of_short_target :
    fetch (oneApp (ascii "lab47/isle") (.error ())) (ascii "docker") = .error .panicked ∧
      ¬ ∀ order, fetch { oneApp (ascii "lab47/isle") (.error ()) with order := order }
        (ascii "docker") ≠ .error .panicked := by
  have hpanic : fetch (oneApp (ascii "lab47/isle") (.error ())) (ascii "docker") =
      .error .panicked :=
    (fetch_eq_panicked_iff _ _).2 (.inr ⟨_, resolveLocation_oneApp (by decide) _ rfl,
      (fetchConfig_eq_panicked_iff _ _).2 ⟨rfl, by decide⟩⟩)
  exact ⟨hpanic, fun h ↦ h _ hpanic⟩

/-! ### What is fetched -/

/-- A text is the content of a file of a repository: of the one at the location, or of an `app.hcl`
in the directory there. -/
inductive Obtained (w : World E C) (rl : ResolvedLocation) (text : List UInt8) : Prop
  | file {owner repo path : Str} {file : File E} {dir : List Entry}
      (type : rl.type = ascii "github") (parts : splitN slash 3 rl.location = [owner, repo, path])
      (contents : w.getContents 0 owner repo path = .ok (some file, dir))
      (text : file.getContent = .ok text)
  | appFile {owner repo path : Str} {file : File E} {dir dir' : List Entry} {ent : Entry}
      (type : rl.type = ascii "github") (parts : splitN slash 3 rl.location = [owner, repo, path])
      (contents : w.getContents 0 owner repo path = .ok (none, dir)) (mem : ent ∈ dir)
      (name : ent.name = ascii "app.hcl")
      (fileContents : w.getContents 1 owner repo ent.path = .ok (some file, dir'))
      (text : file.getContent = .ok text)

/-- The first call for the contents fails. -/
def FirstFails (w : World E C) (rl : ResolvedLocation) : Prop :=
  ∃ owner repo path e, rl.type = ascii "github" ∧
    splitN slash 3 rl.location = [owner, repo, path] ∧ w.getContents 0 owner repo path = .error e

theorem contentOf_eq_ok {file : File E} (h : contentOf file = .ok text) :
    file.getContent = .ok text := by
  rw [contentOf] at h
  cases hc : file.getContent with
  | error e => simp [hc, Except.mapError] at h
  | ok t => simpa [hc, Except.mapError] using h

/-- **What `FetchConfig` returns** is such a text, or the first call has failed. -/
theorem obtained_of_fetchConfig (h : fetchConfig w rl = .ok text) :
    Obtained w rl text ∨ text = [] ∧ FirstFails w rl := by
  rw [fetchConfig] at h
  split_ifs at h with htype
  split at h
  · next owner repo path hparts =>
    split at h
    · next e herr => exact .inr ⟨(Except.ok.inj h).symm, owner, repo, path, e, htype, hparts, herr⟩
    · next file dir hfile => exact .inl (.file htype hparts hfile (contentOf_eq_ok h))
    · next dir hdir =>
      split at h
      · cases h
      · next ent hent =>
        split at h
        · cases h
        · cases h
        · next file dir' hfile =>
          exact .inl (.appFile htype hparts hdir (List.mem_of_find?_eq_some hent)
            (by simpa using List.find?_some hent) hfile (contentOf_eq_ok h))
  · cases h

theorem name_of_decode {name : Str} {data : List UInt8} {cfg : Config C}
    (h : decode w name data = .ok cfg) : cfg.name = name := by
  unfold decode at h
  cases hbody : w.decode data with
  | error e => simp [hbody, Except.mapError, Except.map] at h
  | ok body =>
    simp only [hbody, Except.mapError, Except.map, Except.ok.injEq] at h
    rw [← h]

/-- What `Fetch` returns was returned by `FetchConfig`, and has the selector as its name. -/
theorem exists_of_fetch {cfg : Config C} (h : fetch w sel = .ok (cfg, text)) :
    cfg.name = sel ∧
      ∃ rl, resolveLocation w (resolve sel) = .ok rl ∧ fetchConfig w rl = .ok text := by
  rw [fetch] at h
  cases hrl : resolveLocation w (resolve sel) with
  | error e => simp [hrl, bind, Except.bind] at h
  | ok rl =>
    cases hcfg : fetchConfig w rl with
    | error e => simp [hrl, hcfg, bind, Except.bind] at h
    | ok cfg' =>
      cases hobj : decode w sel cfg' with
      | error e => simp [hrl, hcfg, hobj, bind, Except.bind] at h
      | ok obj =>
        simp only [hrl, hcfg, hobj, bind, Except.bind, pure, Except.pure] at h
        obtain ⟨rfl, rfl⟩ := Prod.mk.inj (Except.ok.inj h)
        exact ⟨name_of_decode hobj, rl, rfl, hcfg⟩

theorem FirstFails.fetchConfig (h : FirstFails w rl) : fetchConfig w rl = .ok [] := by
  obtain ⟨owner, repo, path, e, htype, hparts, herr⟩ := h
  simp only [Locator.fetchConfig, if_pos htype, hparts, herr]

/-- The empty text is decoded and returned. -/
theorem FirstFails.fetch {body : C} (h : FirstFails w rl)
    (hrl : resolveLocation w (resolve sel) = .ok rl) (hbody : w.decode [] = .ok body) :
    fetch w sel = .ok (⟨sel, body⟩, []) := by
  simp [Locator.fetch, hrl, h.fetchConfig, decode, hbody, bind, Except.bind, Except.mapError,
    Except.map, pure, Except.pure]

theorem FirstFails.not_obtained (h : FirstFails w rl) (text : List UInt8) :
    ¬ Obtained w rl text := by
  obtain ⟨owner, repo, path, e, -, hparts, herr⟩ := h
  have hfails : ∀ owner' repo' path', splitN slash 3 rl.location = [owner', repo', path'] →
      w.getContents 0 owner' repo' path' = .error e := by
    intro owner' repo' path' hparts'
    rw [hparts] at hparts'
    simp only [List.cons.injEq, and_true] at hparts'
    obtain ⟨rfl, rfl, rfl⟩ := hparts'
    exact herr
  rintro (⟨-, hparts', hok, -⟩ | ⟨-, hparts', hok, -, -, -, -⟩)
  · cases (hfails _ _ _ hparts').symm.trans hok
  · cases (hfails _ _ _ hparts').symm.trans hok

/-- **What is fetched is from the repository, unless the first call for the contents fails**, given
that an empty text can be decoded. -/
theorem fetch_obtained_iff (w : World E C) (sel : Str) (hempty : ∃ body, w.decode [] = .ok body) :
    (∀ cfg text, fetch w sel = .ok (cfg, text) →
        ∃ rl, resolveLocation w (resolve sel) = .ok rl ∧ Obtained w rl text) ↔
      ∀ rl, resolveLocation w (resolve sel) = .ok rl → ¬ FirstFails w rl := by
  obtain ⟨body, hbody⟩ := hempty
  constructor
  · intro h rl hrl hfails
    obtain ⟨rl', hrl', hobt⟩ := h _ _ (hfails.fetch hrl hbody)
    obtain rfl := Except.ok.inj (hrl.symm.trans hrl')
    exact hfails.not_obtained [] hobt
  · intro h cfg text hfetch
    obtain ⟨-, rl, hrl, hcfg⟩ := exists_of_fetch hfetch
    refine ⟨rl, hrl, (obtained_of_fetchConfig hcfg).resolve_right fun hfails ↦ ?_⟩
    exact h rl hrl hfails.2

/-- A configuration with an empty block. -/
def dockerHcl : Str := ascii "root \x7b\x7d"

/-- The file at the target can be fetched. -/
noncomputable def dockerFile : World Unit Unit :=
  oneApp (ascii "lab47/apps/docker") (.ok (some ⟨.ok dockerHcl⟩, []))

theorem fetch_dockerFile (h : (resolve sel).name = ascii "docker") :
    fetch dockerFile sel = .ok (⟨sel, ()⟩, dockerHcl) := by
  have hrl : resolveLocation dockerFile (resolve sel) =
      .ok ⟨ascii "github", ascii "lab47/apps/docker"⟩ := resolveLocation_oneApp (by decide) _ h
  rw [fetch, hrl]
  rfl

theorem fetch_obtained_docker :
    (∃ body, dockerFile.decode [] = .ok body) ∧
      ((∀ cfg text, fetch dockerFile (ascii "docker") = .ok (cfg, text) →
        ∃ rl, resolveLocation dockerFile (resolve (ascii "docker")) = .ok rl ∧
          Obtained dockerFile rl text) ↔
      ∀ rl, resolveLocation dockerFile (resolve (ascii "docker")) = .ok rl →
        ¬ FirstFails dockerFile rl) :=
  ⟨⟨(), rfl⟩, fetch_obtained_iff _ _ ⟨(), rfl⟩⟩

/-- GitHub cannot be reached. -/
theorem fetch_empty_of_failure :
    fetch (oneApp (ascii "lab47/apps/docker") (.error ())) (ascii "docker") =
        .ok (⟨ascii "docker", ()⟩, []) ∧
      ¬ ∃ rl, resolveLocation (oneApp (ascii "lab47/apps/docker") (.error ()))
          (resolve (ascii "docker")) = .ok rl ∧
        Obtained (oneApp (ascii "lab47/apps/docker") (.error ())) rl [] := by
  have hrl := resolveLocation_oneApp (show ascii "lab47/apps/docker" ≠ [] by decide) (.error ())
    (show (resolve (ascii "docker")).name = ascii "docker" from rfl)
  have hfails : FirstFails (oneApp (ascii "lab47/apps/docker") (.error ()))
      ⟨ascii "github", ascii "lab47/apps/docker"⟩ :=
    ⟨ascii "lab47", ascii "apps", ascii "docker", (), rfl, by decide, rfl⟩
  refine ⟨hfails.fetch hrl rfl, ?_⟩
  rintro ⟨rl, hrl', hobt⟩
  obtain rfl := Except.ok.inj (hrl.symm.trans hrl')
  exact hfails.not_obtained [] hobt

end Locator
