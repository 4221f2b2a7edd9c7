import ProtoWire.Generator.File

/-!
# Answering generation requests

* `respond`: the response to a request. An error is reported in it, without files.
* `runPlugin`: the same on encoded requests and responses.
-/

namespace ProtoWire.Generator

/-- The feature that fields of the third dialect may be optional. -/
def optionalFeature : UInt64 := 1

def requestedFiles (r : Request) (render : Renderer := renderCode) :
    Generate (List GeneratedFile) :=
  match ({} : Options).applyParameter (r.parameter.getD "") with
  | (.error e, _) => fail e
  | (.ok (), options) => generateFiles options r.files (some r.filesToGenerate) render

/-- The response to a request. A failure that is no error leaves none. -/
def respond (r : Request) (render : Renderer := renderCode) : Except Failure Response :=
  match requestedFiles r render with
  | .ok files =>
    .ok {
      supportedFeatures := some optionalFeature
      files := files.map fun f => { name := some f.name, content := some f.content } }
  | .error (.error e) =>
    .ok { supportedFeatures := some optionalFeature, error := some e.message }
  | .error failure => .error failure

def runPlugin (data : Bytes) (render : Renderer := renderCode) : Generate Bytes := do
  let record ← (Record.parse .request data).mapError fun fault => .error (.decode fault)
  let response ← respond (Request.ofRecord record) render
  return response.toRecord.encode .response

end ProtoWire.Generator
