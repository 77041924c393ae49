import JarGate.License.Policy
import JarGate.Proofs.License.Properties
import JarGate.Proofs.Success

/-!
# Policies are read back

The property file of a policy stands for that policy. What it does not hold is whether methods may be
left with approximate defaults.
-/

namespace JarGate

/-- Whether a span is a whole number of milliseconds that fits 64 bits. -/
def Duration.Storable (d : Duration) : Prop := ∃ n < UInt64.size, d = .ofMilliseconds n

@[simp] theorem Duration.milliseconds_ofMilliseconds (n : Nat) : (ofMilliseconds n).milliseconds = n :=
  Nat.mul_div_cancel n (by decide)

@[simp] theorem Duration.milliseconds_ofSeconds (n : Nat) : (ofSeconds n).milliseconds = n * 1000 := by
  change n * 1000000000 / 1000000 = n * 1000
  omega

theorem Duration.ofMilliseconds_thousand (n : Nat) : ofMilliseconds (n * 1000) = ofSeconds n := by
  rw [ofMilliseconds, ofSeconds, Nat.mul_assoc]

theorem FailureMode.parse_propertyName (m : FailureMode) : parse m.propertyName = .ok m := by
  cases m <;> decide +kernel

namespace LicensePolicy

variable {entries : List (String × String)} {key value : String}

theorem required_of_value? (found : Properties.value? entries key = some value) (filled : value ≠ "") :
    required entries key = .ok value := by
  have nonempty : value.isEmpty = false := by simpa using filled
  rw [required, found]
  dsimp only
  rw [nonempty]
  rfl

/-- What comes back of a span that is written as its milliseconds: nothing, if these do not fit 64 bits. -/
def readBack (key : String) (d : Duration) : Except PolicyError Duration :=
  if d.milliseconds < UInt64.size then .ok (.ofMilliseconds d.milliseconds)
  else .error (.invalidValue key (toString d.milliseconds))

theorem readBack_of_storable {d : Duration} (storable : d.Storable) : readBack key d = .ok d := by
  obtain ⟨n, small, rfl⟩ := storable
  rw [readBack, Duration.milliseconds_ofMilliseconds, if_pos small]

theorem milliseconds_eq_readBack {d default : Duration}
    (found : Properties.value? entries key = some (toString d.milliseconds)) :
    milliseconds entries key default = readBack key d := by
  rw [milliseconds, found]
  dsimp only
  rw [Text.Decimal.trim_toString, Text.Decimal.toList_toString, Text.Decimal.below?_toDigits_eq, readBack]
  by_cases small : d.milliseconds < UInt64.size
  · rw [if_pos small, if_pos small]
  · rw [if_neg small, if_neg small]

/-- The keys of the property file need no escapes. -/
theorem plainKey_properties (p : LicensePolicy) : ∀ e ∈ p.properties, Properties.PlainKey e.1 := by
  have each : ∀ key ∈ ["server.url", "product.id", "license.key", "failure.mode", "cache.duration",
      "connection.timeout", "read.timeout"],
      key.toList ≠ [] ∧ key.toList.all Properties.isPlain = true := by
    decide +kernel
  intro e member
  have known : e.1 ∈ p.properties.map (·.1) := List.mem_map_of_mem member
  obtain ⟨nonempty, plain⟩ := each e.1 known
  exact ⟨nonempty, List.all_eq_true.mp plain⟩

/-- The entries of the property file of a policy. -/
theorem parse_toProperties (p : LicensePolicy) : Properties.parse p.toProperties = p.properties := by
  have inline : ∀ c ∈ "License Configuration".toList, Properties.Inline c := by simp [Properties.Inline]
  have header : "#License Configuration\n" =
      String.ofList ('#' :: "License Configuration".toList ++ ['\n']) := by simp
  have whole : p.toProperties = String.ofList ('#' :: "License Configuration".toList ++ ['\n']) ++
      Properties.render p.properties :=
    congrArg (· ++ Properties.render p.properties) header
  rw [whole, Properties.parse_comment inline, Properties.parse_render p.plainKey_properties]

/-- What comes back of a policy that names a server and a product, whatever spans it holds. -/
theorem ofProperties_eq_readBack {p : LicensePolicy} (server : p.serverUrl ≠ "")
    (product : p.productId ≠ "") :
    ofProperties p.toProperties = (do
      let cacheDuration ← readBack "cache.duration" p.cacheDuration
      let connectTimeout ← readBack "connection.timeout" p.connectTimeout
      let readTimeout ← readBack "read.timeout" p.readTimeout
      return { p with cacheDuration, connectTimeout, readTimeout, approximateDefaults := false }) := by
  have server' : required p.properties "server.url" = .ok p.serverUrl :=
    required_of_value? (by rfl) server
  have product' : required p.properties "product.id" = .ok p.productId :=
    required_of_value? (by rfl) product
  have mode : Properties.value? p.properties "failure.mode" = some p.mode.propertyName := by rfl
  have key : Properties.value? p.properties "license.key" = some p.licenseKey := by rfl
  have cache (default : Duration) : milliseconds p.properties "cache.duration" default =
      readBack "cache.duration" p.cacheDuration :=
    milliseconds_eq_readBack (by rfl)
  have connect (default : Duration) : milliseconds p.properties "connection.timeout" default =
      readBack "connection.timeout" p.connectTimeout :=
    milliseconds_eq_readBack (by rfl)
  have read (default : Duration) : milliseconds p.properties "read.timeout" default =
      readBack "read.timeout" p.readTimeout :=
    milliseconds_eq_readBack (by rfl)
  rw [ofProperties, parse_toProperties, server', product', mode, key, cache, connect, read]
  dsimp only
  rw [FailureMode.parse_propertyName]
  rfl

/-- A policy is read back from its property file, whatever characters its texts are made of. -/
theorem ofProperties_toProperties {p : LicensePolicy} (server : p.serverUrl ≠ "")
    (product : p.productId ≠ "") (cache : p.cacheDuration.Storable)
    (connect : p.connectTimeout.Storable) (read : p.readTimeout.Storable) :
    ofProperties p.toProperties = .ok { p with approximateDefaults := false } := by
  rw [ofProperties_eq_readBack server product, readBack_of_storable cache, readBack_of_storable connect,
    readBack_of_storable read]
  rfl

/-- A policy whose texts hold what the format of property files has a meaning for. -/
def awkward : LicensePolicy where
  mode := .limitedMode
  serverUrl := " https://licenses\\"
  productId := "\t#plugin = one!\r\n"
  licenseKey := "\x00:𝄞\\"
  cacheDuration := .ofMilliseconds 0
  connectTimeout := .ofMilliseconds 250
  readTimeout := .ofMilliseconds 18446744073709551615
  approximateDefaults := true

theorem ofProperties_toProperties_awkward : awkward.serverUrl ≠ "" ∧ awkward.productId ≠ "" ∧
    awkward.cacheDuration.Storable ∧ awkward.connectTimeout.Storable ∧ awkward.readTimeout.Storable ∧
    ofProperties awkward.toProperties = .ok { awkward with approximateDefaults := false } := by
  have server : awkward.serverUrl ≠ "" := by decide
  have product : awkward.productId ≠ "" := by decide
  have cache : awkward.cacheDuration.Storable := ⟨0, by decide, rfl⟩
  have connect : awkward.connectTimeout.Storable := ⟨250, by decide, rfl⟩
  have read : awkward.readTimeout.Storable := ⟨18446744073709551615, by decide, rfl⟩
  exact ⟨server, product, cache, connect, read,
    ofProperties_toProperties server product cache connect read⟩

end LicensePolicy

end JarGate
