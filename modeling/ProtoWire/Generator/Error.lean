import ProtoWire.Wire.Error

/-!
# Failures of generation

* `GenerateError`: why code could not be generated, for the reader of a report.
* `Failure`: such an error, or a name that no identifier can be made of or code that has no layout,
  which end generation without a report.
-/

namespace ProtoWire.Generator

/-- Why code could not be generated. -/
inductive GenerateError where
  /-- A file could not be read or written. -/
  | io
  | compilerNotFound
  | compilerFailed (output : String)
  | decode (fault : Fault)
  | missingOutputDirectory
  | missingDescriptorPath
  | missingName
  | missingNumber (name : String)
  | unhandled (message field reason : String)
  | unresolvedType (name : String)
  | invalidDefault (field value : String)
  | invalidParameter (option : String)
  /-- A type path or the code made is not well formed. -/
  | illFormedCode (reason : String)
deriving DecidableEq

def GenerateError.message : GenerateError → String
  | io => "IO error"
  | compilerNotFound => "protoc not found. Set PROTOC env var or install protoc."
  | compilerFailed output => "protoc failed: " ++ output
  | decode fault => "failed to decode descriptor: " ++ fault.message?.getD ""
  | missingOutputDirectory => "OUT_DIR not set. Run from build.rs or set out_dir()."
  | missingDescriptorPath => "file_descriptor_set_path required when skip_protoc is set"
  | missingName => "missing name in descriptor"
  | missingNumber name => "missing field number for field `" ++ name ++ "`"
  | unhandled message field reason =>
    "unhandled schema construct in `" ++ message ++ "." ++ field ++ "`: " ++ reason
  | unresolvedType name => "type `" ++ name ++ "` is not defined in any input file"
  | invalidDefault field value =>
    "invalid default value `" ++ value ++ "` for field `" ++ field ++ "`"
  | invalidParameter option => "invalid generator parameter `" ++ option ++ "`"
  | illFormedCode reason => "failed to parse generated code: " ++ reason

/-- Why generation ended without code. -/
inductive Failure where
  | error (error : GenerateError)
  /-- No identifier can be made of a name. -/
  | illegalName (name : String)
  /-- The code made is well formed and has no layout. -/
  | noLayout
deriving DecidableEq

abbrev Generate := Except Failure

def fail {α : Type} (error : GenerateError) : Generate α :=
  .error (.error error)

def orFail {α : Type} (error : GenerateError) : Option α → Generate α
  | some value => .ok value
  | none => fail error

end ProtoWire.Generator
