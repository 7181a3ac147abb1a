import EnvValues.Config

/-!
# Options, field by field

A config can be written out as a record, with a record for the features and one for the limits
(`Config.toRecord`), and a field of it is what stands there at a path of one key or two. A record of
options is read against the config that has all defaults: **each field is the datum that the record
has at the same path, if it has the type of the default, and the default otherwise**
(`Datum.fill`), and the number of passes is raised to one (`field?_ofRecord`).

The rest follows from this. A field looks at its own path and no other. An entry that no field looks
at, or that is of another type than its field, may be taken out of the record, inside and outside
(`ofRecord_cleaned`). And a config that allows a pass is read again once it is written out.
-/

namespace EnvValues

namespace Datum

/-- Are two data of one type, among the types that a config is written out with? -/
def alike : Datum → Datum → Bool
  | bool _, bool _ => true
  | int _, int _ => true
  | record _, record _ => true
  | _, _ => false

/-- What is given, if it has the type of the default, and the default otherwise. -/
def fill (default : Datum) (given : Option Datum) : Datum :=
  match given with
  | some d => if d.alike default then d else default
  | none => default

end Datum

namespace Record

/-- The datum under a key, or under a key of the record under another one. -/
def at? (r : Record) : List String → Option Datum
  | [key] => r.lookup key
  | [outer, key] => (r.record? outer).bind fun s => s.lookup key
  | _ => none

/-- The entries for which there is a default, of the type of what is found under their key. -/
def known (defaults r : Record) : Record :=
  r.filter fun e => (r.lookup e.1).any fun d => (defaults.lookup e.1).any d.alike

/-- What is left of a datum under a key: of a record that should be one, its known entries. -/
def knownInside (defaults : Record) (key : String) (d : Datum) : Datum :=
  match defaults.lookup key, d with
  | some (.record inner), .record s => .record (known inner s)
  | _, d => d

/-- The known entries, and in the records among them the known entries again. -/
def cleaned (defaults r : Record) : Record :=
  List.map (fun e => (e.1, knownInside defaults e.1 e.2)) (known defaults r)

end Record

namespace Features

/-- The features, written out. -/
def toRecord (f : Features) : Record :=
  [("variables", .bool f.references), ("commands", .bool f.commands), ("escapes", .bool f.escapes),
   ("defaults", .bool f.defaults), ("alternates", .bool f.alternates)]

end Features

namespace Limits

/-- The limits, written out. -/
def toRecord (l : Limits) : Record :=
  [("max_input_length", .int l.inputLength), ("max_output_length", .int l.outputLength),
   ("max_nesting_depth", .int l.nestingDepth)]

end Limits

namespace Config

/-- The config, written out. -/
def toRecord (c : Config) : Record :=
  [("max_iterations", .int c.maxIterations), ("fail_on_cmd_error", .bool c.failOnCommandError),
   ("warn_on_undefined", .bool c.warnOnUndefined), ("disable_security", .bool c.disableSecurity),
   ("warn_on_max_iterations", .bool c.warnOnMaxIterations),
   ("features", .record c.features.toRecord), ("limits", .record c.limits.toRecord)]

/-- The paths of the fields. -/
def paths : List (List String) :=
  [["max_iterations"], ["fail_on_cmd_error"], ["warn_on_undefined"], ["disable_security"],
   ["warn_on_max_iterations"], ["features", "variables"], ["features", "commands"],
   ["features", "escapes"], ["features", "defaults"], ["features", "alternates"],
   ["limits", "max_input_length"], ["limits", "max_output_length"],
   ["limits", "max_nesting_depth"]]

/-- The value of the field at a path. -/
def field? (c : Config) (path : List String) : Option Datum := c.toRecord.at? path

/-- A number of passes is raised to one, and other fields are left as they are. -/
def raised : List String → Datum → Datum
  | ["max_iterations"], .int n => .int (max 1 n)
  | _, d => d

end Config

/-! ## Records -/

namespace Datum

theorem fill_bool (b : Bool) (r : Record) (key : String) :
    fill (.bool b) (r.lookup key) = .bool ((r.bool? key).getD b) := by
  unfold Record.bool?
  cases r.lookup key with
  | none => rfl
  | some d => cases d <;> rfl

theorem fill_int (n : Int) (r : Record) (key : String) :
    fill (.int n) (r.lookup key) = .int ((r.int? key).getD n) := by
  unfold Record.int?
  cases r.lookup key with
  | none => rfl
  | some d => cases d <;> rfl

/-- What does not have the type of the default might as well be missing. -/
theorem fill_filter (default : Datum) (given : Option Datum) :
    fill default (given.filter fun d => d.alike default) = fill default given := by
  cases given with
  | none => rfl
  | some d => cases h : d.alike default <;> simp [Option.filter, fill, h]

end Datum

namespace Record
variable {defaults r : Record} {key : String}

/-- Under a key that is kept, what was there is found. -/
theorem lookup_filter (p : String → Bool) (r : Record) (key : String) :
    (r.filter fun e => p e.1).lookup key = if p key then r.lookup key else none := by
  induction r with
  | nil => simp
  | cons e r ih =>
      obtain ⟨k, d⟩ := e
      by_cases hk : key = k
      · subst hk
        cases hp : p key <;> simp [hp, ih]
      · have hne : (key == k) = false := by simpa using hk
        cases hp : p k <;> simp [List.lookup_cons, hp, hne, ih]

/-- Data that are replaced are replaced where they are found. -/
theorem lookup_map (f : String → Datum → Datum) (r : Record) (key : String) :
    (List.map (fun e => (e.1, f e.1 e.2)) r).lookup key = (r.lookup key).map (f key) := by
  induction r with
  | nil => rfl
  | cons e r ih =>
      obtain ⟨k, d⟩ := e
      by_cases hk : key = k
      · subst hk
        simp
      · have hne : (key == k) = false := by simpa using hk
        simp [List.lookup_cons, hne, ih]

/-- Where there is a default, a datum of its type is kept, and no other. -/
theorem lookup_known {default : Datum} (h : defaults.lookup key = some default) :
    (known defaults r).lookup key = (r.lookup key).filter fun d => d.alike default := by
  rw [known, lookup_filter fun k => (r.lookup k).any fun d => (defaults.lookup k).any d.alike, h]
  cases r.lookup key with
  | none => rfl
  | some d => cases hd : d.alike default <;> simp [Option.filter, hd]

/-- Cleaning keeps a record where the defaults have one, and cleans it. -/
theorem record?_cleaned {inner : Record} (h : defaults.record? key = some inner) :
    (cleaned defaults r).record? key = (r.record? key).map (known inner) := by
  have hlookup : defaults.lookup key = some (.record inner) := by
    unfold record? at h
    split at h
    · next s hs => rw [hs, Option.some.inj h]
    · cases h
  rw [record?, record?, cleaned, lookup_map, lookup_known hlookup]
  cases r.lookup key with
  | none => rfl
  | some d => cases d <;> simp [Option.filter, Datum.alike, knownInside, hlookup]

/-- **Cleaning keeps, at every path, what has the type of the default there**, where that is not a
record itself. -/
theorem at?_cleaned {path : List String} {default : Datum} (h : defaults.at? path = some default)
    (hplain : ∀ s, default ≠ .record s) (r : Record) :
    (cleaned defaults r).at? path = (r.at? path).filter fun d => d.alike default := by
  match path with
  | [] => cases h
  | [key] =>
      have hkey : defaults.lookup key = some default := h
      have hinside : ∀ d, knownInside defaults key d = d := by
        intro d
        unfold knownInside
        split
        · next inner _ hinner => exact absurd (Option.some.inj (hkey.symm.trans hinner)) (hplain _)
        · rfl
      rw [at?, at?, cleaned, lookup_map, lookup_known hkey, funext hinside, Option.map_id']
  | [outer, key] =>
      obtain ⟨inner, hinner, hkey⟩ := Option.bind_eq_some_iff.1 h
      rw [at?, at?, record?_cleaned hinner]
      cases r.record? outer with
      | none => rfl
      | some s => exact lookup_known hkey
  | _ :: _ :: _ :: _ => cases h

/-- A record that is missing is as good as one without entries. -/
theorem lookup_getD_record? (r : Record) (outer key : String) :
    ((r.record? outer).getD []).lookup key = r.at? [outer, key] := by
  rw [at?]
  cases r.record? outer <;> rfl

end Record

/-! ## Configs -/

namespace Config

/-- **Each field is what the record has at its path, if it has the type of the default, and the
default otherwise**; but the number of passes is raised to one. -/
theorem field?_ofRecord (r : Record) : ∀ path ∈ paths, ∃ default,
    ({} : Config).field? path = some default ∧ (∀ s, default ≠ .record s)
    ∧ (ofRecord r).field? path = some (raised path (default.fill (r.at? path))) := by
  have hbool : ∀ (s : Record) (b : Bool) (key : String),
      some (Datum.bool ((s.bool? key).getD b)) = some ((Datum.bool b).fill (s.lookup key)) :=
    fun s b key => congrArg some (Datum.fill_bool b s key).symm
  have hint : ∀ (s : Record) (n : Int) (key : String),
      some (Datum.int ((s.int? key).getD n)) = some ((Datum.int n).fill (s.lookup key)) :=
    fun s n key => congrArg some (Datum.fill_int n s key).symm
  -- the features and the limits are read from records that may be missing
  let features : Record := (r.record? "features").getD []
  let limits : Record := (r.record? "limits").getD []
  simp only [paths, List.forall_mem_cons, ← Record.lookup_getD_record?]
  refine ⟨⟨_, rfl, nofun, ?_⟩, ⟨_, rfl, nofun, hbool r _ _⟩, ⟨_, rfl, nofun, hbool r _ _⟩,
    ⟨_, rfl, nofun, hbool r _ _⟩, ⟨_, rfl, nofun, hbool r _ _⟩,
    ⟨_, rfl, nofun, hbool features _ _⟩, ⟨_, rfl, nofun, hbool features _ _⟩,
    ⟨_, rfl, nofun, hbool features _ _⟩, ⟨_, rfl, nofun, hbool features _ _⟩,
    ⟨_, rfl, nofun, hbool features _ _⟩, ⟨_, rfl, nofun, hint limits _ _⟩,
    ⟨_, rfl, nofun, hint limits _ _⟩, ⟨_, rfl, nofun, hint limits _ _⟩, nofun⟩
  rw [Record.at?, Datum.fill_int]
  rfl

/-- So a field is the same in two configs that are read, if what is found at its path fills the
default alike. -/
theorem field?_ofRecord_congr {r r' : Record} {path : List String} (hpath : path ∈ paths)
    (h : ∀ default, ({} : Config).field? path = some default → (∀ s, default ≠ .record s) →
      default.fill (r.at? path) = default.fill (r'.at? path)) :
    (ofRecord r).field? path = (ofRecord r').field? path := by
  obtain ⟨default, hdefault, hplain, hfield⟩ := field?_ofRecord r path hpath
  obtain ⟨default', hdefault', -, hfield'⟩ := field?_ofRecord r' path hpath
  obtain rfl : default = default' := Option.some.inj (hdefault.symm.trans hdefault')
  rw [hfield, hfield', h default hdefault hplain]

/-- Configs with the same fields are the same. -/
theorem ext_field? {c c' : Config} (h : ∀ path ∈ paths, c.field? path = c'.field? path) :
    c = c' := by
  have bool : ∀ {b b' : Bool}, some (Datum.bool b) = some (.bool b') → b = b' :=
    fun h => Datum.bool.inj (Option.some.inj h)
  have int : ∀ {n n' : Int}, some (Datum.int n) = some (.int n') → n = n' :=
    fun h => Datum.int.inj (Option.some.inj h)
  simp only [paths, List.forall_mem_cons] at h
  obtain ⟨hpasses, hfail, hundefined, hsecurity, hlast, hreferences, hcommands, hescapes, hdefaults,
    halternates, hinput, houtput, hdepth, -⟩ := h
  have hfeatures : c.features = c'.features :=
    Features.mk.injEq .. |>.mpr ⟨bool hreferences, bool hcommands, bool hescapes, bool hdefaults,
      bool halternates⟩
  have hlimits : c.limits = c'.limits :=
    Limits.mk.injEq .. |>.mpr ⟨int hinput, int houtput, int hdepth⟩
  exact Config.mk.injEq .. |>.mpr ⟨int hpasses, bool hfail, bool hundefined, bool hsecurity,
    bool hlast, hfeatures, hlimits⟩

/-! ## What is read from records -/

/-- **Only what a field looks at counts**: an entry without a field of its key, or of another type
than the field, might as well be missing. -/
theorem ofRecord_cleaned (r : Record) :
    ofRecord (Record.cleaned ({} : Config).toRecord r) = ofRecord r := by
  refine ext_field? fun path hpath => field?_ofRecord_congr hpath fun default hdefault hplain => ?_
  rw [Record.at?_cleaned hdefault hplain, Datum.fill_filter]

end Config

/-- Features that are written out are read again. -/
theorem Features.ofRecord_toRecord (f : Features) : ofRecord f.toRecord = f := rfl

/-- Limits that are written out are read again. -/
theorem Limits.ofRecord_toRecord (l : Limits) : ofRecord l.toRecord = l := rfl

namespace Config

/-- A config that is written out is read again, if it allows a pass. -/
theorem ofRecord_toRecord {c : Config} (h : 1 ≤ c.maxIterations) : ofRecord c.toRecord = c := by
  have hpasses : max 1 c.maxIterations = c.maxIterations := Int.max_eq_right h
  change { c with maxIterations := max 1 c.maxIterations } = c
  rw [hpasses]

/-- Features that are given as such stand for the record that writes them out. -/
theorem ofOptions_features (r : Record) (f : Features) (l : Option Limits) :
    ofOptions { fields := r, features := some f, limits := l }
      = ofOptions { fields := ("features", .record f.toRecord) :: r, limits := l } := rfl

/-- So do limits. -/
theorem ofOptions_limits (r : Record) (f : Option Features) (l : Limits) :
    ofOptions { fields := r, features := f, limits := some l }
      = ofOptions { fields := ("limits", .record l.toRecord) :: r, features := f } := rfl

/-- **A config is read from a record of options field by field.** Each field is what the record has
at its path, where that is a truth value for a field of truth values and an integer for one of
integers, and its default otherwise, and then the number of passes is raised to one. The fields are
all there is to a config, and each of them depends on what is at its own path alone. So a record may
be cleaned of every entry that is not known or has the wrong type, inside and outside, and it gives
the same config. Features and limits may be given as such or as the records that write them out. And
a config that allows a pass is read again from the record that writes it out. -/
theorem ofOptions_fieldwise :
    (∀ r : Record, ∀ path ∈ paths, ∃ default,
      ({} : Config).field? path = some default ∧ (∀ s, default ≠ .record s)
      ∧ (ofOptions { fields := r }).field? path = some (raised path (default.fill (r.at? path))))
    ∧ (∀ c c' : Config, (∀ path ∈ paths, c.field? path = c'.field? path) → c = c')
    ∧ (∀ r r' : Record, ∀ path ∈ paths, r.at? path = r'.at? path →
      (ofOptions { fields := r }).field? path = (ofOptions { fields := r' }).field? path)
    ∧ (∀ r : Record, ofOptions { fields := Record.cleaned ({} : Config).toRecord r }
      = ofOptions { fields := r })
    ∧ (∀ (r : Record) (f : Features) (l : Option Limits),
      ofOptions { fields := r, features := some f, limits := l }
        = ofOptions { fields := ("features", .record f.toRecord) :: r, limits := l })
    ∧ (∀ (r : Record) (f : Option Features) (l : Limits),
      ofOptions { fields := r, features := f, limits := some l }
        = ofOptions { fields := ("limits", .record l.toRecord) :: r, features := f })
    ∧ ∀ c : Config, 1 ≤ c.maxIterations → ofOptions { fields := c.toRecord } = c := by
  simp only [ofOptions_fields]
  refine ⟨field?_ofRecord, fun c c' => ext_field?, fun r r' path hpath hsame => ?_,
    ofRecord_cleaned, ofOptions_features, ofOptions_limits, fun c => ofRecord_toRecord⟩
  exact field?_ofRecord_congr hpath fun default _ _ => by rw [hsame]

/-- Options with a key that nobody knows at either level, an integer for a truth value, a text for
one, and a list for the limits. The number of passes is one, but negative. -/
def muddled : Record :=
  [("verbose", .bool true), ("max_iterations", .int (-3)), ("fail_on_cmd_error", .int 1),
   ("features", .record [("commands", .bool false), ("escapes", .text ['n', 'o']), ("all", .null)]),
   ("limits", .list [.int 1])]

/-- Two entries count, and one pass is allowed. The config that is read is read again. -/
theorem ofOptions_fieldwise_muddled :
    ["max_iterations"] ∈ paths ∧ ["features", "escapes"] ∈ paths
    ∧ (ofOptions { fields := muddled }).field? ["max_iterations"] = some (.int 1)
    ∧ (ofOptions { fields := muddled }).field? ["features", "escapes"] = some (.bool true)
    ∧ Record.cleaned ({} : Config).toRecord muddled
      = [("max_iterations", .int (-3)), ("features", .record [("commands", .bool false)])]
    ∧ ofOptions { fields := muddled } = { maxIterations := 1, features := { commands := false } }
    ∧ (1 : Int) ≤ (ofOptions { fields := muddled }).maxIterations
    ∧ ofOptions { fields := (ofOptions { fields := muddled }).toRecord }
      = ofOptions { fields := muddled } := by
  obtain ⟨hfields, -, -, hcleaned, -, -, hagain⟩ := ofOptions_fieldwise
  have hpasses : ["max_iterations"] ∈ paths := by decide
  have hescapes : ["features", "escapes"] ∈ paths := by decide
  have hknown : Record.cleaned ({} : Config).toRecord muddled
      = [("max_iterations", .int (-3)), ("features", .record [("commands", .bool false)])] := rfl
  have hone : (1 : Int) ≤ (ofOptions { fields := muddled }).maxIterations := by decide
  refine ⟨hpasses, hescapes, ?_, ?_, hknown, ?_, hone, hagain _ hone⟩
  · obtain ⟨_, hdefault, -, hfield⟩ := hfields muddled _ hpasses
    cases hdefault
    exact hfield
  · obtain ⟨_, hdefault, -, hfield⟩ := hfields muddled _ hescapes
    cases hdefault
    exact hfield
  · rw [← hcleaned muddled, hknown]
    rfl

end Config
end EnvValues
