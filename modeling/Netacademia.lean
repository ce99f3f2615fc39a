import Netacademia.Lib.Machine
import Netacademia.Lib.Text
import Netacademia.Lib.Json
import Netacademia.Lib.Reader
import Netacademia.Lib.Cells
import Netacademia.Lib.Table
import Netacademia.Dht
import Netacademia.DaemonHandle
import Netacademia.Daemons
import Netacademia.Firmware
import Netacademia.DhtAlive
import Netacademia.DhtPublish
import Netacademia.DevDht
import Netacademia.DhtCalls
import Netacademia.DhtCapture
import Netacademia.Tasks
import Netacademia.Report
import Netacademia.DhtIndex
import Netacademia.DhtFresh
import Netacademia.Segments
import Netacademia.Sensors
import Netacademia.Rest
import Netacademia.Exchange
import Netacademia.Sketch
import Netacademia.Wire
import Netacademia.Pairing
import Netacademia.Celsius
import Netacademia.Listen
import Netacademia.Receive
import Netacademia.Restart
import Netacademia.Ultrasonic
import Netacademia.UniSensor
import Netacademia.DhtTimeout
import Netacademia.Lib.Loop
import Netacademia.Lib.Csv
import Netacademia.CsvClient
import Netacademia.Lib.Unicode
import Netacademia.FileServer
import Netacademia.Lib.Xml
import Netacademia.SketchFeb19a
import Netacademia.XmlStats
import Netacademia.UploadFolder
import Netacademia.MqttQueue
import Netacademia.MqttMsg
import Netacademia.MqttClient
import Netacademia.DhtTicks
import Netacademia.DevRetry
import Netacademia.DevDaemon
import Netacademia.FindCfiles
import Netacademia.Answers
import Netacademia.I2cMaster
import Netacademia.Mvh3004
import Netacademia.ConfigStore
import Netacademia.Keys
import Netacademia.Uart
import Netacademia.AtSdio
